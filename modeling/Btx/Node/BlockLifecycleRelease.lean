/-
# What the lifecycle table lets go of

`Retain` erases victims before it knows whether there will be room (`retain_keeps_iff`).
`ExpireStaleAttempts` forgets the resources of an attempt with a body, and `Retry` drops the
cancellation flag without setting it (`attempts_released_iff`).
-/

import Btx.Node.BlockLifecycleRun

namespace Btx.Node.BlockLifecycle

open Util OrderedMap List Option LifecycleEntry

variable {ι : Type}

/-! ## Bodies that are refused -/

variable (t : BlockLifecycle ι)

/-- The retained bodies that no eviction for `hash` can remove: its own and those of live attempts.
-/
def pinned (hash : Uint256) (w : LifecycleEntry ι → ℕ) : ℕ :=
  t.entries.total fun h e => if h = hash ∨ e.live = true then w e else 0

/-- No body but that of `hash` can be evicted. -/
def NoneEvictable (hash : Uint256) : Prop :=
  ∀ h e, t.entries.find? h = some e → h ≠ hash → e.body.isSome → e.live = true

/-- What is pinned leaves no room for the body. -/
def Pinned (hash : Uint256) (oldCount oldBytes bytes : ℕ) : Prop :=
  (t.maxRetainedCount : ℤ) < t.pinned hash LifecycleEntry.bodyCount - oldCount + 1 ∨
    (t.maxRetainedBytes : ℤ) < t.pinned hash LifecycleEntry.bodyBytes - oldBytes + bytes

/-- The body is one that can be retained, but what is pinned, among the bodies that have not
expired, leaves no room for it. -/
def Blocked (hash : Uint256) (body : RetainedBody ι) (now : ℤ) : Prop :=
  body.hashPrevBlock.isSome ∧ body.bytes ≤ t.maxRetainedBytes ∧
    (t.pruneExpiredRetained now).Pinned hash ((t.pruneExpiredRetained now).replacedCount hash)
      ((t.pruneExpiredRetained now).replacedBytes hash) body.bytes

section Refused

variable {t : BlockLifecycle ι} {hash : Uint256} {e : LifecycleEntry ι} {body : RetainedBody ι}
  {now : ℤ} {oldCount oldBytes bytes : ℕ}

theorem oldestEvictable_eq_some {victim : Uint256 × LifecycleEntry ι}
    (h : t.oldestEvictable hash = some victim) : t.entries.find? victim.1 = some victim.2 ∧
      victim.1 ≠ hash ∧ victim.2.body.isSome ∧ ¬victim.2.live = true := by
  obtain ⟨hfind, hp⟩ := oldest_eq_some h
  exact ⟨hfind, by simpa using hp⟩

theorem noneEvictable_of_oldest (h : t.oldestEvictable hash = none) : t.NoneEvictable hash := by
  intro k e hk hne hbody
  have := oldest_eq_none h hk
  simpa [hne, hbody] using this

variable (t) in
theorem pinned_le (hash : Uint256) (w : LifecycleEntry ι → ℕ) :
    t.pinned hash w ≤ t.entries.total fun _ e => w e := by
  refine total_le_total fun h e _ => ?_
  split_ifs
  · exact le_rfl
  · exact zero_le

theorem NoneEvictable.pinned_eq (h : t.NoneEvictable hash) {w : LifecycleEntry ι → ℕ}
    (hw : ∀ e, e.body = none → w e = 0) : t.pinned hash w = t.entries.total fun _ e => w e := by
  refine total_congr fun k e hmem => ?_
  split_ifs with hp
  · rfl
  · push Not at hp
    rw [hw e]
    by_contra hbody
    exact hp.2 (h k e (find?_eq_some_iff.2 hmem) hp.1 (isSome_iff_ne_none.2 hbody))

theorem pinned_eraseEntry {victim : Uint256} (w : LifecycleEntry ι → ℕ)
    (hk : t.entries.find? victim = some e) (hne : victim ≠ hash) (hdead : ¬e.live = true) :
    (t.eraseEntry victim).pinned hash w = t.pinned hash w := by
  unfold pinned
  rw [total_eq_add_erase hk, if_neg (by simp [hne, hdead]), zero_add, eraseEntry, hk]

/-- **When the loop of `Retain` finds no room**; then nothing that it could evict is left. -/
theorem makeRoom_eq_false_iff (hinv : t.Inv) (hash : Uint256) (oldCount oldBytes bytes : ℕ) :
    ((t.makeRoom hash oldCount oldBytes bytes).1 = false ↔ t.Pinned hash oldCount oldBytes bytes) ∧
    ((t.makeRoom hash oldCount oldBytes bytes).1 = false →
      (t.makeRoom hash oldCount oldBytes bytes).2.NoneEvictable hash) := by
  fun_induction makeRoom t hash oldCount oldBytes bytes with
  | case1 t hfull hv =>
    have hnone := noneEvictable_of_oldest hv
    have hcount := hnone.pinned_eq (w := bodyCount)
      fun e he => by simp [bodyCount, he]
    have hbytes := hnone.pinned_eq (w := bodyBytes)
      fun e he => by simp [bodyBytes, he]
    refine ⟨⟨fun _ => ?_, fun _ => rfl⟩, fun _ => hnone⟩
    rw [Pinned, hcount, hbytes]
    rw [hinv.bytes] at hfull
    exact hfull
  | case2 t hfull victim hv _ ih =>
    obtain ⟨hfind, hne, -, hdead⟩ := oldestEvictable_eq_some hv
    have hkeeps := keeps_eraseEntry t victim.1
    obtain ⟨hiff, hnone⟩ := ih (hinv.keeps hkeeps)
    refine ⟨hiff.trans ?_, hnone⟩
    unfold Pinned
    rw [pinned_eraseEntry _ hfind hne hdead, pinned_eraseEntry _ hfind hne hdead, hkeeps.maxCount,
      hkeeps.maxBytes]
  | case3 t hroom =>
    have hcount := pinned_le t hash bodyCount
    have hbytes := pinned_le t hash bodyBytes
    have hb := hinv.bytes
    simp only [Bool.true_eq_false, false_iff, false_implies, and_true]
    unfold retainedCount at hroom
    unfold bodyTotal at hb
    unfold Pinned
    omega

theorem makeRoom_of_noneEvictable (h : t.NoneEvictable hash) :
    (t.makeRoom hash oldCount oldBytes bytes).2 = t := by
  fun_induction makeRoom t hash oldCount oldBytes bytes with
  | case1 t hfull hv => rfl
  | case2 t hfull victim hv _ ih =>
    obtain ⟨hfind, hne, hbody, hdead⟩ := oldestEvictable_eq_some hv
    exact absurd (h _ _ hfind hne hbody) hdead
  | case3 t hroom => rfl

theorem find?_of_eraseEntry {h victim : Uint256}
    (hk : (t.eraseEntry victim).entries.find? h = some e) : t.entries.find? h = some e := by
  unfold eraseEntry at hk
  split at hk
  · exact hk
  · dsimp only at hk
    rw [find?_erase] at hk
    split_ifs at hk
    exact hk

theorem find?_of_makeRoom {h : Uint256} (hash : Uint256) (oldCount oldBytes bytes : ℕ)
    (hk : (t.makeRoom hash oldCount oldBytes bytes).2.entries.find? h = some e) :
    t.entries.find? h = some e := by
  fun_induction makeRoom t hash oldCount oldBytes bytes with
  | case1 t => exact hk
  | case2 t _ _ _ _ ih => exact find?_of_eraseEntry (ih hk)
  | case3 t => exact hk

theorem find?_of_expireActiveWithoutBody {h : Uint256}
    (hk : (t.expireActiveWithoutBody hash).2.entries.find? h = some e) :
    t.entries.find? h = some e := by
  unfold expireActiveWithoutBody at hk
  split at hk
  · exact hk
  · next e₀ hk₀ =>
    split_ifs at hk
    · exact hk
    · have hk' := find?_erase.symm.trans hk
      split_ifs at hk'
      rwa [(like_raise _ _).entries, (like_completedIf t e₀.state).entries] at hk'

theorem find?_of_pruneExpiredRetained {h : Uint256}
    (hk : (t.pruneExpiredRetained now).entries.find? h = some e) : t.entries.find? h = some e := by
  unfold pruneExpiredRetained at hk
  refine foldlRecOn t.entries.entries _ (motive := fun t' : BlockLifecycle ι =>
    t'.entries.find? h = some e → t.entries.find? h = some e) id ?_ hk
  intro t' ht' item _ hk'
  split_ifs at hk'
  · exact ht' (find?_of_eraseEntry hk')
  · exact ht' hk'

theorem retain_eq_false (hinv : t.Inv) (hash : Uint256) (body : RetainedBody ι) (now : ℤ) :
    ((t.retain hash body now).1 = false ∧ (t.retain hash body now).2 = t ∧
      ¬t.Blocked hash body now) ∨
    ((t.retain hash body now).1 = false ↔ t.Blocked hash body now) ∧
      ((t.retain hash body now).1 = false →
        (t.retain hash body now).2 = ((t.pruneExpiredRetained now).makeRoom hash
          ((t.pruneExpiredRetained now).replacedCount hash)
          ((t.pruneExpiredRetained now).replacedBytes hash) body.bytes).2 ∧
        (t.retain hash body now).2.NoneEvictable hash) := by
  obtain ⟨hiff, hnone⟩ := makeRoom_eq_false_iff (hinv.keeps (keeps_pruneExpiredRetained t now)) hash
    ((t.pruneExpiredRetained now).replacedCount hash)
    ((t.pruneExpiredRetained now).replacedBytes hash) body.bytes
  unfold retain
  dsimp only
  split_ifs with hreject hroom
  · refine .inl ⟨rfl, rfl, fun hblocked => ?_⟩
    rcases hreject with hnull | hbig
    · simp [isNone_iff_eq_none.1 hnull, Blocked] at hblocked
    · exact absurd hblocked.2.1 (not_le.2 hbig)
  · push Not at hreject
    have hno := Bool.not_eq_true' _ |>.mp hroom
    refine .inr ⟨⟨fun _ => ⟨?_, hreject.2, hiff.1 hno⟩, fun _ => rfl⟩, fun _ => ⟨rfl, hnone hno⟩⟩
    simpa [isNone_iff_eq_none, isSome_iff_ne_none] using hreject.1
  · refine .inr ⟨⟨fun h => by simp at h, fun hblocked => absurd (hiff.2 hblocked.2.2) ?_⟩,
      fun h => by simp at h⟩
    simpa using hroom

end Refused

/-- **When a refused body flushes nothing.** If `Retain` refuses a body all other retained bodies
that have not expired stay, exactly if a body that the pinned ones leave no room for meets no body
that could be evicted. -/
theorem retain_keeps_iff (maxRetainedCount maxRetainedBytes : ℕ)
    (retainedMaxAge asyncStaleAfter : ℤ)
    (calls : List (ℤ × Call ι)) (t : BlockLifecycle ι)
    (ht : t = ((new maxRetainedCount maxRetainedBytes retainedMaxAge asyncStaleAfter).run calls).1)
    (hash : Uint256) (body : RetainedBody ι) (now : ℤ) :
    ((t.retain hash body now).1 = false → ∀ h ≠ hash, ∀ e b,
      (t.pruneExpiredRetained now).entries.find? h = some e → e.body = some b →
      ∃ e', (t.retain hash body now).2.entries.find? h = some e' ∧ e'.body = some b) ↔
    (t.Blocked hash body now → (t.pruneExpiredRetained now).NoneEvictable hash) := by
  have hinv : t.Inv := ht ▸ run_inv calls ⟨rfl, zero_le, zero_le⟩
  rcases retain_eq_false hinv hash body now with ⟨-, hsame, hnot⟩ | ⟨hiff, hafter⟩
  · refine ⟨fun _ hblocked => absurd hblocked hnot, fun _ _ h _ e b hk hb => ?_⟩
    exact ⟨e, by rw [hsame, find?_of_pruneExpiredRetained hk], hb⟩
  · rw [hiff]
    refine forall_congr' fun hblocked => ?_
    obtain ⟨hroom, hnone⟩ := hafter (hiff.2 hblocked)
    constructor
    · intro hkept h e hk hne hbody
      obtain ⟨b, hb⟩ := isSome_iff_exists.1 hbody
      obtain ⟨e', hk', hb'⟩ := hkept h hne e b hk hb
      -- an entry that is still there was not rewritten, and what is left with a body is live
      obtain rfl : e' = e :=
        some.inj ((find?_of_makeRoom _ _ _ _ (hroom ▸ hk')).symm.trans hk)
      exact hnone h e' hk' hne (by rw [hb']; rfl)
    · intro hstay h _ e b hk hb
      exact ⟨e, by rw [hroom, makeRoom_of_noneEvictable hstay, hk], hb⟩

/-- A live attempt pins the body of block 7, and the body of block 8 can be evicted. -/
def pinningRun : List (ℤ × Call Unit) :=
  [(2, .begin 7), (1, .retain 8 ⟨some 7, 0, 0, 30, ()⟩), (0, .retain 7 ⟨some 6, 0, 0, 60, ()⟩)]

/-- Once an attempt pins the body of block 8 too, nothing can be evicted for block 9, which is
refused after the eviction loop. -/
theorem retain_keeps_iff_pinningRun :
    (((new 2 100 10 10).run ((2, .begin 8) :: pinningRun)).1.retain 9
      ⟨some 8, 0, 0, 50, ()⟩ 3).1 = false ∧
    ∀ h ≠ 9, ∀ e b, (((new 2 100 10 10).run
        ((2, .begin 8) :: pinningRun)).1.pruneExpiredRetained 3).entries.find? h = some e →
      e.body = some b →
      ∃ e', (((new 2 100 10 10).run ((2, .begin 8) :: pinningRun)).1.retain 9
        ⟨some 8, 0, 0, 50, ()⟩ 3).2.entries.find? h = some e' ∧ e'.body = some b := by
  have hfalse : (((new 2 100 10 10).run ((2, .begin 8) :: pinningRun)).1.retain 9
      ⟨some 8, 0, 0, 50, ()⟩ 3).1 = false := by
    decide +kernel
  have hlive : ∀ x ∈ (((new 2 100 10 10).run
      ((2, .begin 8) :: pinningRun)).1.pruneExpiredRetained 3).entries.entries,
      x.2.live = true := by
    decide +kernel
  refine ⟨hfalse, (retain_keeps_iff 2 100 10 10 _ _ rfl 9 _ 3).2 (fun _ => ?_) hfalse⟩
  intro h e hk _ _
  exact hlive (h, e) (find?_eq_some_iff.1 hk)

/-- Block 9 does not fit beside what the attempt pins: it is refused, and block 8 is gone. -/
theorem refused_body_flushes_other :
    (((new 2 100 10 10).run pinningRun).1.pruneExpiredRetained 3).hasRetainedBody 8 = true ∧
    (((new 2 100 10 10).run pinningRun).1.retain 9 ⟨some 8, 0, 0, 50, ()⟩ 3).1 = false ∧
    (((new 2 100 10 10).run pinningRun).1.retain 9 ⟨some 8, 0, 0, 50, ()⟩ 3).2.hasRetainedBody 8 =
      false := by
  decide +kernel

/-! ## Attempts that end -/

/-- The entry holds no lease and no resources. -/
def Clean (e : LifecycleEntry ι) : Prop := e.pendingLease = none ∧ e.ownedResources = []

/-- Entries without a live attempt hold nothing. -/
def IdleClean (t : BlockLifecycle ι) : Prop :=
  ∀ h e, t.entries.find? h = some e → e.live = false → Clean e

/-- What a call owes to the attempts that it ends: their flags are set and they leave nothing
behind; no entry without a live attempt holds anything, and an attempt that begins inherits nothing.
-/
structure Released (t : BlockLifecycle ι) (now : ℤ) (c : Call ι) : Prop where
  ended : ∀ h e, t.entries.find? h = some e → e.live = true →
    ¬StillLive (t.apply now c).2 h e.generation →
    (∀ flag ∈ e.cancelled, flag ∈ (t.apply now c).2.raised) ∧
      ∀ e', (t.apply now c).2.entries.find? h = some e' → Clean e'
  idle : IdleClean (t.apply now c).2
  fresh : ∀ token ∈ (t.apply now c).1, ∀ e',
    (t.apply now c).2.entries.find? token.hash = some e' → Clean e'

/-- The call does not meet an attempt that it ends badly: `ExpireStaleAttempts` finds no resources
at a stale attempt with a body, and `Retry` no live attempt with a flag that is not set. -/
def Call.Releases (t : BlockLifecycle ι) (now : ℤ) : Call ι → Prop
  | .expireStaleAttempts => ∀ h e, t.entries.find? h = some e → t.stale now e → e.body.isSome →
      e.ownedResources = []
  | .retry token _ => ∀ e, t.find token = some e → e.live = true → ∀ flag ∈ e.cancelled,
      flag ∈ t.raised
  | _ => True

section Release

variable {t t' : BlockLifecycle ι} {now : ℤ} {hash h : Uint256} {e e' : LifecycleEntry ι}
  {c : Call ι}

/-! ### Entries without an attempt -/

variable (hidle : t.IdleClean)

include hidle in
theorem IdleClean.of_find?
    (hsub : ∀ h e, t'.entries.find? h = some e → t.entries.find? h = some e) : t'.IdleClean :=
  fun h e hk => hidle h e (hsub h e hk)

include hidle in
theorem IdleClean.put (he : e'.live = false → Clean e')
    (hentries : t'.entries = t.entries.insert hash e') : t'.IdleClean := by
  intro h e hk hdead
  rw [hentries, find?_insert] at hk
  split_ifs at hk
  · cases hk
    exact he hdead
  · exact hidle h e hk hdead

include hidle in
theorem IdleClean.erase (hentries : t'.entries = t.entries.erase hash) : t'.IdleClean := by
  refine hidle.of_find? fun h e hk => ?_
  rw [hentries, find?_erase] at hk
  split_ifs at hk
  exact hk

variable (t) in
theorem find?_expireEntry (hash h : Uint256) (now : ℤ) (e : LifecycleEntry ι) (resources : List ℕ) :
    (t.expireEntry hash now e resources).entries.find? h =
      if h = hash then
        if e.body.isSome then some { e with
          pendingLease := none, cancelled := none, ownedResources := resources
          state := .transientFailure, updatedAt := now }
        else none
      else t.entries.find? h := by
  unfold expireEntry
  split_ifs with hbody hh hh
  · exact find?_insert.trans (if_pos hh)
  · exact find?_insert.trans (if_neg hh)
  · exact find?_erase.trans (if_pos hh)
  · exact find?_erase.trans (if_neg hh)

include hidle in
theorem IdleClean.expireEntry {resources : List ℕ} (hres : e.body.isSome → resources = []) :
    (t.expireEntry hash now e resources).IdleClean := by
  unfold BlockLifecycle.expireEntry
  split_ifs with hbody
  · exact hidle.put (fun _ => ⟨rfl, hres hbody⟩) rfl
  · exact hidle.erase rfl

include hidle in
theorem IdleClean.expireStaleAttempt (hash : Uint256) (now : ℤ) :
    (t.expireStaleAttempt hash now).IdleClean := by
  unfold BlockLifecycle.expireStaleAttempt
  split
  · exact hidle
  · split_ifs
    · exact hidle.expireEntry fun _ => rfl
    · exact hidle

include hidle in
theorem IdleClean.retain {body : RetainedBody ι} : (t.retain hash body now).2.IdleClean := by
  have hroom : ((t.pruneExpiredRetained now).makeRoom hash
      ((t.pruneExpiredRetained now).replacedCount hash)
      ((t.pruneExpiredRetained now).replacedBytes hash) body.bytes).2.IdleClean :=
    hidle.of_find? fun _ _ hk => find?_of_pruneExpiredRetained (find?_of_makeRoom _ _ _ _ hk)
  unfold BlockLifecycle.retain
  dsimp only
  split_ifs
  · exact hidle
  · exact hroom
  · refine hroom.put (fun hdead => ?_) rfl
    generalize ((t.pruneExpiredRetained now).makeRoom hash _ _ body.bytes).2 = room at *
    cases hk : room.entries.find? hash with
    | none => exact ⟨rfl, rfl⟩
    | some e =>
      rw [hk] at hdead
      simp only [getD_some] at hdead ⊢
      split_ifs at hdead ⊢ with hlive
      · exact absurd hdead (by simpa [live] using hlive)
      · exact hroom hash e hk (by simpa using hlive)

/-- One item of the walk of `ExpireStaleAttempts`. -/
def expireItem (now : ℤ) (acc : ℕ × BlockLifecycle ι) (item : Uint256 × LifecycleEntry ι) :
    ℕ × BlockLifecycle ι :=
  match acc.2.entries.find? item.1 with
  | none => acc
  | some e =>
      if acc.2.stale now e then (acc.1 + 1, acc.2.expireEntry item.1 now e e.ownedResources)
        else acc

variable (t) in
theorem expireStaleAttempts_eq (now : ℤ) :
    t.expireStaleAttempts now = t.entries.entries.foldl (expireItem now) (0, t) := rfl

theorem asyncStaleAfter_expireItem (acc : ℕ × BlockLifecycle ι)
    (item : Uint256 × LifecycleEntry ι) :
    (expireItem now acc item).2.asyncStaleAfter = acc.2.asyncStaleAfter := by
  unfold expireItem
  split
  · rfl
  · unfold expireEntry
    split_ifs <;> rfl

include hidle in
theorem IdleClean.expireStaleAttempts
    (hres : ∀ h e, t.entries.find? h = some e → t.stale now e → e.body.isSome →
      e.ownedResources = []) : (t.expireStaleAttempts now).2.IdleClean := by
  rw [expireStaleAttempts_eq]
  -- what is live was not touched yet
  refine (foldlRecOn t.entries.entries _ (motive := fun acc : ℕ × BlockLifecycle ι =>
    acc.2.IdleClean ∧ acc.2.asyncStaleAfter = t.asyncStaleAfter ∧ ∀ h e,
      acc.2.entries.find? h = some e → e.live = true → t.entries.find? h = some e)
    ⟨hidle, rfl, fun _ _ hk _ => hk⟩ ?_).1
  rintro acc ⟨hacc, hafter, hlive⟩ item -
  refine ⟨?_, (asyncStaleAfter_expireItem acc item).trans hafter, ?_⟩
  · unfold expireItem
    split
    · exact hacc
    · next e hk =>
      split_ifs with hstale
      · refine hacc.expireEntry fun hbody => hres item.1 e (hlive item.1 e hk ?_) ?_ hbody
        · exact (Bool.and_eq_true _ _ ▸ hstale).1
        · rwa [stale, ← hafter]
      · exact hacc
  · intro h e' hk' he'
    unfold expireItem at hk'
    split at hk'
    · exact hlive h e' hk' he'
    · next e hk =>
      split_ifs at hk' with hstale
      · dsimp only at hk'
        rw [find?_expireEntry] at hk'
        split_ifs at hk' with hh hbody
        · cases hk'
          exact absurd he' (by simp [live, LifecycleState.isActive])
        · exact hlive h e' hk' he'
      · exact hlive h e' hk' he'

include hidle in
theorem IdleClean.begin : (t.begin hash now).2.IdleClean := by
  have hexpire := hidle.expireStaleAttempt hash now
  unfold BlockLifecycle.begin
  dsimp only
  split_ifs
  · exact hexpire
  · exact hexpire.put (fun hdead => absurd hdead (by simp [live,
      LifecycleState.isActive])) rfl

variable {token : Token} {flag : CancelFlag}

include hidle in
theorem IdleClean.of_advances (hc : c.advances = some token) : (t.apply now c).2.IdleClean := by
  rcases apply_of_advances hc with hsame | ⟨e₀, e', _, _, hlive, hentries⟩
  · rwa [hsame]
  · exact hidle.put (fun hdead => absurd hlive (by simp [hdead])) hentries

include hidle in
/-- **Calls leave idle entries clean**, if they release. -/
theorem IdleClean.apply (hc : c.Releases t now) : (t.apply now c).2.IdleClean := by
  have hactive (t₁ : BlockLifecycle ι) (hidle : t₁.IdleClean) (hash : Uint256) :
      (t₁.isActive hash now).2.IdleClean := hidle.expireStaleAttempt hash now
  cases c with
  | begin hash => exact hidle.begin
  | isActive hash => exact hactive t hidle hash
  | expireStaleAttempts => exact hidle.expireStaleAttempts hc
  | retain hash body => exact hidle.retain
  | nextRetry parent ignore => exact hidle.of_find? fun _ _ => find?_of_pruneExpiredRetained
  | refreshRetry hash delay =>
    unfold apply refreshRetry
    dsimp only
    split
    · exact hidle
    · next e hk =>
      split
      · exact hidle
      · refine hidle.put ?_ rfl
        exact fun hdead => hidle hash e hk hdead
  | queue token | start token | park token | completing token => exact hidle.of_advances rfl
  | retry token delay =>
    unfold apply retry
    dsimp only
    split
    · exact hidle
    · next e he =>
      have hlike := (like_completedIf t e.state).entries
      split
      · exact hidle.erase (congrArg (OrderedMap.erase · token.hash) hlike)
      · exact hidle.put (fun _ => ⟨rfl, rfl⟩) (congrArg (OrderedMap.insert · token.hash _) hlike)
  | expireActiveWithoutBody hash => exact hidle.of_find? fun _ _ => find?_of_expireActiveWithoutBody
  | shouldSkipFetchWhileAsyncPending hash haveData =>
    have hexpire : (t.expireActiveWithoutBody hash).2.IdleClean :=
      hidle.of_find? fun _ _ => find?_of_expireActiveWithoutBody
    unfold apply shouldSkipFetchWhileAsyncPending
    dsimp only
    split_ifs
    · exact hactive t hidle hash
    · exact hexpire
    · exact hactive _ hexpire hash
  | retryInactive hash delay =>
    unfold apply retryInactive
    dsimp only
    split
    · exact hidle
    · next e hk =>
      split_ifs with hlive
      · exact hidle
      · split
        · exact hidle.erase rfl
        · refine hidle.put ?_ rfl
          exact fun _ => hidle hash e hk (by simpa using hlive)
  | terminalRetained hash =>
    refine hidle.of_find? fun _ _ hk => ?_
    unfold apply terminalRetained at hk
    dsimp only at hk
    split at hk
    · exact hk
    · split_ifs at hk
      · exact hk
      · exact find?_of_eraseEntry hk
  | terminal token =>
    refine hidle.of_find? fun _ _ hk => ?_
    unfold apply terminal at hk
    dsimp only at hk
    split at hk
    · exact hk
    · exact find?_of_eraseEntry hk
  | note count => exact hidle

include hidle in
theorem fresh_apply (htoken : token ∈ (t.apply now c).1)
    (hk : (t.apply now c).2.entries.find? token.hash = some e') : Clean e' := by
  cases c with
  | begin hash =>
    have hexpire := hidle.expireStaleAttempt hash now
    unfold apply begin at htoken hk
    dsimp only at htoken hk
    split_ifs at htoken hk with hlive
    · simp at htoken
    · cases htoken
      obtain rfl := some.inj (find?_insert_self.symm.trans hk)
      refine ⟨rfl, ?_⟩
      cases hk₀ : (t.expireStaleAttempt hash now).entries.find? hash with
      | none => rfl
      | some e => exact (hexpire hash e hk₀ (by simpa [hk₀] using hlive)).2
  | _ => simp [apply] at htoken

/-! ### Flags -/

theorem find_of_find? (hk : t.entries.find? h = some e) : t.find ⟨h, e.generation⟩ = some e := by
  unfold find
  rw [hk]
  exact if_neg (by simp)

theorem raised_expireEntry (resources : List ℕ) :
    (t.expireEntry hash now e resources).raised = t.raised ++ e.cancelled.toList := by
  unfold expireEntry
  split_ifs <;> rfl

theorem raised_expireStaleAttempt (hash : Uint256) (now : ℤ) :
    t.raised ⊆ (t.expireStaleAttempt hash now).raised := by
  unfold expireStaleAttempt
  split
  · exact .refl _
  · split_ifs
    · rw [raised_expireEntry]
      exact subset_append_left _ _
    · exact .refl _

theorem raised_of_stale (hk : t.entries.find? hash = some e) (hstale : t.stale now e)
    (hflag : flag ∈ e.cancelled) : flag ∈ (t.expireStaleAttempt hash now).raised := by
  unfold expireStaleAttempt
  rw [hk]
  dsimp only
  rw [if_pos hstale, raised_expireEntry]
  exact mem_append_right _ (by simpa using hflag)

theorem foldl_expireItem_dead (now : ℤ) (items : List (Uint256 × LifecycleEntry ι))
    (acc : ℕ × BlockLifecycle ι) (hdead : ∀ e, acc.2.entries.find? h = some e → e.live = false) :
    (items.foldl (expireItem now) acc).2.entries.find? h = acc.2.entries.find? h ∧
      acc.2.raised ⊆ (items.foldl (expireItem now) acc).2.raised := by
  induction items generalizing acc with
  | nil => exact ⟨rfl, .refl _⟩
  | cons item items ih =>
    have hitem : (expireItem now acc item).2.entries.find? h = acc.2.entries.find? h ∧
        acc.2.raised ⊆ (expireItem now acc item).2.raised := by
      unfold expireItem
      split
      · exact ⟨rfl, .refl _⟩
      · next e hk =>
        split_ifs with hstale
        · have hne : h ≠ item.1 := by
            rintro rfl
            simp [stale, hdead e hk] at hstale
          dsimp only
          rw [find?_expireEntry, if_neg hne, raised_expireEntry]
          exact ⟨rfl, subset_append_left _ _⟩
        · exact ⟨rfl, .refl _⟩
    obtain ⟨hfind, hraised⟩ := ih (expireItem now acc item) (by rw [hitem.1]; exact hdead)
    exact ⟨hfind.trans hitem.1, List.Subset.trans hitem.2 hraised⟩

/-- **What the walk makes of a stale attempt.** -/
theorem foldl_expireItem_stale (items : List (Uint256 × LifecycleEntry ι))
    (acc : ℕ × BlockLifecycle ι) (hk : acc.2.entries.find? h = some e) (hstale : acc.2.stale now e)
    (hmem : h ∈ items.map Prod.fst) :
    (∀ flag ∈ e.cancelled, flag ∈ (items.foldl (expireItem now) acc).2.raised) ∧
    (e.body.isSome → ∃ e', (items.foldl (expireItem now) acc).2.entries.find? h = some e' ∧
      e'.live = false ∧ e'.ownedResources = e.ownedResources) := by
  induction items generalizing acc with
  | nil => simp at hmem
  | cons item items ih =>
    by_cases hh : h = item.1
    · have hitem : expireItem now acc item =
          (acc.1 + 1, acc.2.expireEntry h now e e.ownedResources) := by
        unfold expireItem
        rw [← hh, hk]
        dsimp only
        rw [if_pos hstale]
      have hafter := find?_expireEntry acc.2 h h now e e.ownedResources
      rw [if_pos rfl] at hafter
      obtain ⟨hfind, hraised⟩ := foldl_expireItem_dead now items
        (expireItem now acc item) (h := h) (by
          rw [hitem, hafter]
          intro e' he'
          split_ifs at he'
          cases he'
          rfl)
      rw [hitem] at hfind hraised
      rw [foldl_cons, hitem]
      refine ⟨fun flag hflag => hraised ?_, fun hbody => ?_⟩
      · rw [raised_expireEntry]
        exact mem_append_right _ (by simpa using hflag)
      · rw [hfind, hafter, if_pos hbody]
        exact ⟨_, rfl, rfl, rfl⟩
    · have hkeep : (expireItem now acc item).2.entries.find? h = some e := by
        unfold expireItem
        split
        · exact hk
        · split_ifs
          · exact (find?_expireEntry_of_ne hh).trans hk
          · exact hk
      refine ih (expireItem now acc item) hkeep ?_ ?_
      · rw [stale, asyncStaleAfter_expireItem]
        exact hstale
      · exact (mem_cons.1 hmem).resolve_left hh

/-- **A call sets the flags of the attempts that it ends**, if it releases. -/
theorem raised_apply (hc : c.Releases t now) (hk : t.entries.find? h = some e)
    (hlive : e.live = true)
    (hends : ¬StillLive (t.apply now c).2 h e.generation)
    (hflag : flag ∈ e.cancelled) : flag ∈ (t.apply now c).2.raised := by
  have hcall : c.Ends t now h e := by
    by_contra hno
    exact hends (stillLive_apply hk hlive hno)
  have hbodyless (hnone : e.body = none) : flag ∈ (t.expireActiveWithoutBody h).2.raised := by
    unfold expireActiveWithoutBody
    rw [hk]
    dsimp only
    rw [if_neg (by simp [hlive, hnone])]
    exact mem_append_right _ (by simpa using hflag)
  cases c with
  | begin hash =>
    obtain ⟨rfl, hstale⟩ := hcall
    have hraised := raised_of_stale hk hstale hflag
    unfold apply begin
    dsimp only
    split_ifs
    · exact hraised
    · exact hraised
  | isActive hash =>
    obtain ⟨rfl, hstale⟩ := hcall
    exact raised_of_stale hk hstale hflag
  | expireStaleAttempts =>
    refine (foldl_expireItem_stale t.entries.entries (0, t) hk hcall ?_).1 flag hflag
    exact List.mem_map_of_mem (find?_eq_some_iff.1 hk)
  | retry token delay =>
    obtain rfl : token = ⟨h, e.generation⟩ := hcall
    have hset := hc e (find_of_find? hk) hlive flag hflag
    show flag ∈ (t.retry ⟨h, e.generation⟩ delay now).2.raised
    unfold retry
    rw [find_of_find? hk]
    dsimp only
    unfold completedIf
    split
    all_goals
      split_ifs
      · exact hset
      · exact hset
  | terminal token =>
    obtain rfl : token = ⟨h, e.generation⟩ := hcall
    show flag ∈ (t.terminal ⟨h, e.generation⟩).raised
    unfold terminal
    rw [find_of_find? hk]
    dsimp only
    unfold eraseEntry
    rw [hk]
    exact mem_append_right _ (by simpa using hflag)
  | expireActiveWithoutBody hash =>
    obtain ⟨rfl, hnone⟩ := hcall
    exact hbodyless hnone
  | shouldSkipFetchWhileAsyncPending hash haveData =>
    obtain ⟨rfl, hor⟩ := hcall
    unfold apply shouldSkipFetchWhileAsyncPending at hends ⊢
    dsimp only at hends ⊢
    have hstale (t₁ : BlockLifecycle ι) (hk₁ : t₁.entries.find? hash = some e)
        (hno : ¬StillLive (t₁.isActive hash now).2 hash e.generation) :
        flag ∈ (t₁.isActive hash now).2.raised := by
      refine raised_of_stale hk₁ ?_ hflag
      by_contra hfresh
      exact hno (.of_find? (find?_expireStaleAttempt hk₁ fun hand => hfresh hand.2) hlive)
    split_ifs at hends ⊢ with hdata hexpired
    · exact hstale t hk hends
    · refine hbodyless ?_
      by_contra hbody
      exact hends (.of_find? (find?_expireActiveWithoutBody hash hk fun hand => hbody hand.2) hlive)
    · by_cases hbody : e.body = none
      · exact raised_expireStaleAttempt _ _ (hbodyless hbody)
      · exact hstale _ (find?_expireActiveWithoutBody hash hk fun hand => hbody hand.2) hends
  | _ => exact absurd hcall (by simp [Call.Ends])

theorem begun_of_live (hk : t.entries.find? h = some e) (hlive : e.live = true)
    (hends : ¬StillLive (t.apply now c).2 h e.generation)
    (hk' : (t.apply now c).2.entries.find? h = some e') (hlive' : e'.live = true) :
    ∃ token ∈ (t.apply now c).1, token.hash = h := by
  have hkept (hkeeps : ∃ e₀, t.entries.find? h = some e₀ ∧ e₀.generation = e'.generation) :
      False := by
    obtain ⟨e₀, hk₀, hgen⟩ := hkeeps
    obtain rfl : e = e₀ := some.inj (hk.symm.trans hk₀)
    exact hends ⟨e', hk', hlive', hgen.symm⟩
  cases c with
  | begin hash =>
    have hexpire := (keeps_expireStaleAttempt t hash now).generations h e'
    rcases begin_cases t hash now with heq | ⟨-, e₀, -, -, heq⟩
    · refine (hkept (hexpire ?_)).elim
      rwa [apply, heq] at hk'
    · by_cases hh : h = hash
      · exact ⟨_, by rw [apply, heq]; rfl, hh.symm⟩
      · refine (hkept (hexpire ?_)).elim
        rw [apply, heq] at hk'
        exact (find?_put_of_ne hh).symm.trans hk'
  | retain hash body => exact absurd (stillLive_retain hk hlive) hends
  | _ => exact (hkept ((keeps_apply t now _ (by simp) (by simp)).generations h e' hk')).elim

include hidle in
/-- **One call**, on a table whose idle entries are clean. -/
theorem released_of_releases (hc : c.Releases t now) : Released t now c where
  ended h e hk hlive hends := by
    refine ⟨fun flag hflag => raised_apply hc hk hlive hends hflag, fun e' hk' => ?_⟩
    cases hlive' : e'.live with
    | false => exact hidle.apply hc h e' hk' hlive'
    | true =>
      obtain ⟨token, htoken, rfl⟩ := begun_of_live hk hlive hends hk' hlive'
      exact fresh_apply hidle htoken hk'
  idle := hidle.apply hc
  fresh _ htoken _ hk := fresh_apply hidle htoken hk

theorem releases_of_released (hreleased : Released t now c) : c.Releases t now := by
  cases c with
  | expireStaleAttempts =>
    intro h e hk hstale hbody
    obtain ⟨-, hleft⟩ := foldl_expireItem_stale t.entries.entries (0, t) hk hstale
      (List.mem_map_of_mem (find?_eq_some_iff.1 hk))
    obtain ⟨e', hk', hdead, hres⟩ := hleft hbody
    exact hres ▸ (hreleased.idle h e' hk' hdead).2
  | retry token delay =>
    intro e he hlive flag hflag
    obtain ⟨hk, hgen⟩ := find_eq_some he
    have hentries := (like_completedIf t e.state).entries
    have hraised : (t.retry token delay now).2.raised = t.raised := by
      unfold retry completedIf
      rw [he]
      dsimp only
      split
      all_goals split_ifs <;> rfl
    have hends : ¬StillLive (t.retry token delay now).2 token.hash e.generation := by
      rintro ⟨e', hk', hlive', -⟩
      unfold retry at hk'
      rw [he] at hk'
      dsimp only at hk'
      split at hk'
      · have := find?_erase_self.symm.trans hk'
        simp at this
      · obtain rfl := some.inj (find?_insert_self.symm.trans hk')
        simp [live, LifecycleState.isActive] at hlive'
    exact hraised ▸ (hreleased.ended token.hash e hk hlive hends).1 flag hflag
  | _ => trivial

include hidle in
/-- If every call releases what it must, idle entries hold nothing. -/
theorem idleClean_run (calls : List (ℤ × Call ι))
    (hcalls : ∀ later now c earlier, calls = later ++ (now, c) :: earlier →
      c.Releases (t.run earlier).1 now) : (t.run calls).1.IdleClean := by
  induction calls with
  | nil => exact hidle
  | cons call calls ih =>
    refine (ih fun later now c earlier heq => ?_).apply (hcalls [] call.1 call.2 calls rfl)
    exact hcalls (call :: later) now c earlier (by rw [heq]; rfl)

end Release

/-- **When every attempt is released.** Over every run: each call sets the flags of the attempts it
ends and leaves nothing of theirs behind, and only live attempts hold leases or resources, exactly
if no `ExpireStaleAttempts` meets a stale attempt with a body and resources and no `Retry` meets a
live attempt with a flag that is not set. -/
theorem attempts_released_iff (maxRetainedCount maxRetainedBytes : ℕ)
    (retainedMaxAge asyncStaleAfter : ℤ) (calls : List (ℤ × Call ι)) :
    (∀ later now c earlier, calls = later ++ (now, c) :: earlier →
      Released ((new maxRetainedCount maxRetainedBytes retainedMaxAge asyncStaleAfter).run
        earlier).1 now c) ↔
    (∀ later now c earlier, calls = later ++ (now, c) :: earlier →
      c.Releases ((new maxRetainedCount maxRetainedBytes retainedMaxAge asyncStaleAfter).run
        earlier).1 now) := by
  constructor
  · exact fun hreleased later now c earlier heq =>
      releases_of_released (hreleased later now c earlier heq)
  · intro hcalls later now c earlier heq
    refine released_of_releases (idleClean_run ?_ earlier ?_) (hcalls later now c earlier heq)
    · intro h e hk
      cases hk
    · intro later' now' c' earlier' heq'
      refine hcalls (later ++ (now, c) :: later') now' c' earlier' ?_
      rw [heq, heq']
      simp

/-- An attempt with a body and a resource that is not heard of again. -/
def abandonedRun : List (ℤ × Call Unit) :=
  [(2, .queue ⟨7, 1⟩ (some 1) (some (.shared 5)) [4]), (1, .begin 7),
    (0, .retain 7 ⟨some 6, 0, 0, 60, ()⟩)]

/-- Its resource stays in the entry after `ExpireStaleAttempts`, and the next attempt inherits it; a
`Retry` in its place does not set its flag. -/
theorem abandoned_attempt_not_released :
    ((((new 2 100 50 10).run abandonedRun).1.apply 20 .expireStaleAttempts).2.entries.find? 7).map
      (fun e => (e.live, e.ownedResources)) = some (false, [4]) ∧
    ((((new 2 100 50 10).run ((20, .expireStaleAttempts) :: abandonedRun)).1.apply 21
      (.begin 7)).2.entries.find? 7).map (fun e => (e.live, e.ownedResources)) = some (true, [4]) ∧
    (((new 2 100 50 10).run abandonedRun).1.apply 3 (.retry ⟨7, 1⟩ 0)).2.raised = [] := by
  decide +kernel

end Btx.Node.BlockLifecycle
