/-
# What every run of the lifecycle keeps

Every call is a sequence of edits of the entries: one is rewritten with its body's size and its
generation kept, or removed with its bytes given back (`Keeps`); besides, `begin` gives an entry a
fresh generation and `retain` puts a body into one.
-/

import Btx.Node.BlockLifecycle

namespace Btx.Node.BlockLifecycle

open Util OrderedMap List Option LifecycleEntry

variable {ι : Type}

/-- The sum of the retained sizes. -/
def bodyTotal (t : BlockLifecycle ι) : ℕ := t.entries.total fun _ e => e.bodyBytes

/-! ## Edits -/

/-- Equal but for the progress counters and the raised flags. -/
structure Like (t' t : BlockLifecycle ι) : Prop where
  entries : t'.entries = t.entries
  bytes : t'.retainedBytes = t.retainedBytes
  generation : t'.nextGeneration = t.nextGeneration
  maxCount : t'.maxRetainedCount = t.maxRetainedCount
  maxBytes : t'.maxRetainedBytes = t.maxRetainedBytes

/-- What edits keep. -/
structure Keeps (t t' : BlockLifecycle ι) : Prop where
  bytes : t'.retainedBytes - t'.bodyTotal = t.retainedBytes - t.bodyTotal
  total_le : t'.bodyTotal ≤ t.bodyTotal
  count_le : t'.retainedCount ≤ t.retainedCount
  generation : t'.nextGeneration = t.nextGeneration
  generations : ∀ h e', t'.entries.find? h = some e' →
    ∃ e, t.entries.find? h = some e ∧ e.generation = e'.generation
  maxCount : t'.maxRetainedCount = t.maxRetainedCount
  maxBytes : t'.maxRetainedBytes = t.maxRetainedBytes

section Edits

variable {t t' t₁ : BlockLifecycle ι} {hash : Uint256} {e e' : LifecycleEntry ι} {now : ℤ}

variable (t) in
theorem Like.refl : Like t t := ⟨rfl, rfl, rfl, rfl, rfl⟩

theorem Like.keeps (h : Like t' t) : Keeps t t' where
  bytes := by rw [bodyTotal, bodyTotal, h.entries, h.bytes]
  total_le := by rw [bodyTotal, bodyTotal, h.entries]
  count_le := by rw [retainedCount, retainedCount, h.entries]
  generation := h.generation
  generations _ e' hk := ⟨e', h.entries ▸ hk, rfl⟩
  maxCount := h.maxCount
  maxBytes := h.maxBytes

variable {t'' : BlockLifecycle ι}

theorem Keeps.trans (h' : Keeps t' t'') (h : Keeps t t') : Keeps t t'' where
  bytes := h'.bytes.trans h.bytes
  total_le := h'.total_le.trans h.total_le
  count_le := h'.count_le.trans h.count_le
  generation := h'.generation.trans h.generation
  generations k e'' hk := by
    obtain ⟨e', hk', hgen'⟩ := h'.generations k e'' hk
    obtain ⟨e, hk, hgen⟩ := h.generations k e' hk'
    exact ⟨e, hk, hgen.trans hgen'⟩
  maxCount := h'.maxCount.trans h.maxCount
  maxBytes := h'.maxBytes.trans h.maxBytes

theorem Keeps.like (h : Keeps t t') (hlike : Like t'' t') : Keeps t t'' :=
  hlike.keeps.trans h

section

variable (hk : t.entries.find? hash = some e)

include hk

theorem total_put {w : LifecycleEntry ι → ℕ} (hw : w e' = w e) :
    (t.entries.insert hash e').total (fun _ e => w e) = t.entries.total fun _ e => w e := by
  have h := total_insert_add (m := t.entries) (k := hash) (v := e') (w := fun _ e => w e)
  rw [hk, map_some, getD_some] at h
  omega

theorem keeps_put (hgen : e'.generation = e.generation)
    (hbytes : e'.bodyBytes = e.bodyBytes) (hcount : e'.bodyCount = e.bodyCount) :
    Keeps t (t.put hash e') := by
  have htotal : (t.put hash e').bodyTotal = t.bodyTotal := total_put hk hbytes
  refine ⟨by rw [htotal]; rfl, htotal.le, (total_put hk hcount).le, rfl, fun h e'' he => ?_, rfl,
    rfl⟩
  rw [put, find?_insert] at he
  split_ifs at he with hh
  · cases he
    exact ⟨e, hh ▸ hk, hgen.symm⟩
  · exact ⟨e'', he, rfl⟩

theorem keeps_remove (hentries : t'.entries = t.entries.erase hash)
    (hbytes : t'.retainedBytes = t.retainedBytes - e.bodyBytes)
    (hgen : t'.nextGeneration = t.nextGeneration)
    (hcount : t'.maxRetainedCount = t.maxRetainedCount)
    (hmax : t'.maxRetainedBytes = t.maxRetainedBytes) : Keeps t t' := by
  have htotal : t.bodyTotal = e.bodyBytes + t'.bodyTotal := by
    rw [bodyTotal, total_eq_add_erase hk, bodyTotal, hentries]
  refine ⟨by omega, by omega, ?_, hgen, fun h e'' he => ?_, hcount, hmax⟩
  · rw [retainedCount, retainedCount, hentries]
    exact total_erase_le
  · rw [hentries, find?_erase] at he
    split_ifs at he
    exact ⟨e'', he, rfl⟩

end

variable (t) in
theorem Keeps.refl : Keeps t t := (Like.refl t).keeps

variable (t) in
theorem like_raise (flag : Option CancelFlag) : Like (t.raise flag) t :=
  ⟨rfl, rfl, rfl, rfl, rfl⟩

variable (t) in
theorem like_completedIf (state : LifecycleState) : Like (t.completedIf state) t := by
  unfold completedIf
  split_ifs
  · exact ⟨rfl, rfl, rfl, rfl, rfl⟩
  · exact Like.refl t

variable (t) in
theorem keeps_eraseEntry (hash : Uint256) : Keeps t (t.eraseEntry hash) := by
  unfold eraseEntry
  split
  · exact .refl t
  · next e hk => exact keeps_remove hk rfl rfl rfl rfl rfl

theorem keeps_drop (hk : t.entries.find? hash = some e) (hbody : e.body = none) :
    Keeps t (t.drop hash) :=
  keeps_remove hk rfl (by simp [drop, bodyBytes, hbody]) rfl rfl rfl

theorem keeps_expireEntry {resources : List ℕ} (hk : t.entries.find? hash = some e) :
    Keeps t (t.expireEntry hash now e resources) := by
  unfold expireEntry
  split_ifs with hbody
  · refine Keeps.trans (keeps_put (t := t.raise e.cancelled) hk ?_ ?_ ?_) (like_raise t _).keeps
    all_goals rfl
  · exact (keeps_drop (t := t.raise e.cancelled) hk (by simpa using hbody)).trans
      (like_raise t _).keeps

variable (t) in
theorem keeps_expireStaleAttempt (hash : Uint256) (now : ℤ) :
    Keeps t (t.expireStaleAttempt hash now) := by
  unfold expireStaleAttempt
  split
  · exact .refl t
  · next e hk =>
    split_ifs
    · exact keeps_expireEntry hk
    · exact .refl t

variable (t) in
theorem keeps_expireStaleAttempts (now : ℤ) : Keeps t (t.expireStaleAttempts now).2 := by
  unfold expireStaleAttempts
  refine foldlRecOn t.entries.entries _
    (motive := fun acc : ℕ × BlockLifecycle ι => Keeps t acc.2) (Keeps.refl t) ?_
  intro acc hacc item _
  split
  · exact hacc
  · next e hk =>
    split_ifs
    · exact (keeps_expireEntry hk).trans hacc
    · exact hacc

variable (t) in
theorem keeps_pruneExpiredRetained (now : ℤ) : Keeps t (t.pruneExpiredRetained now) := by
  unfold pruneExpiredRetained
  refine foldlRecOn t.entries.entries _ (motive := fun t' => Keeps t t') (Keeps.refl t) ?_
  intro t' ht' item _
  split_ifs
  · exact (keeps_eraseEntry t' item.1).trans ht'
  · exact ht'

theorem find_eq_some {token : Token} (h : t.find token = some e) :
    t.entries.find? token.hash = some e ∧ e.generation = token.generation := by
  unfold find at h
  split at h
  · simp at h
  · next e' hk =>
    split_ifs at h with hgen
    cases h
    exact ⟨hk, not_not.1 hgen⟩

variable (t) in
theorem keeps_refreshRetry (hash : Uint256) (delay now : ℤ) :
    Keeps t (t.refreshRetry hash delay now).2 := by
  unfold refreshRetry
  split
  · exact .refl t
  · next e hk =>
    split
    · exact .refl t
    · next body hbody =>
      refine keeps_put hk rfl ?_ ?_
      · simp [bodyBytes, hbody]
      · simp [bodyCount, hbody]

variable (t) in
theorem keeps_queue (token : Token) (lease : Option ℕ)
    (flag : Option CancelFlag) (resources : List ℕ) (now : ℤ) :
    Keeps t (t.queue token lease flag resources now).2 := by
  unfold queue
  split
  · exact .refl t
  · next e he =>
    split_ifs
    · exact .refl t
    · refine keeps_put (find_eq_some he).1 ?_ ?_ ?_
      all_goals rfl

variable (t) in
theorem keeps_start (token : Token) (now : ℤ) : Keeps t (t.start token now).2 := by
  unfold start
  split
  · exact .refl t
  · next e he =>
    split_ifs
    · exact .refl t
    · have hput : Keeps t (t.put token.hash { e with state := .running, updatedAt := now }) :=
        keeps_put (find_eq_some he).1 rfl rfl rfl
      exact hput.like ⟨rfl, rfl, rfl, rfl, rfl⟩

variable (t) in
theorem keeps_park (token : Token) (now : ℤ) : Keeps t (t.park token now).2 := by
  unfold park
  split
  · exact .refl t
  · next e he =>
    split_ifs
    · exact .refl t
    · refine keeps_put (find_eq_some he).1 ?_ ?_ ?_
      all_goals rfl

variable (t) in
theorem keeps_completing (token : Token) (now : ℤ) : Keeps t (t.completing token now).2 := by
  unfold completing
  split
  · exact .refl t
  · next e he =>
    split_ifs
    · exact .refl t
    · have hput : Keeps t (t.put token.hash { e with state := .completing, updatedAt := now }) :=
        keeps_put (find_eq_some he).1 rfl rfl rfl
      exact hput.like ⟨rfl, rfl, rfl, rfl, rfl⟩

variable (t) in
theorem keeps_retry (token : Token) (delay now : ℤ) : Keeps t (t.retry token delay now).2 := by
  unfold retry
  split
  · exact .refl t
  · next e he =>
    have hlike := like_completedIf t e.state
    have hk : (t.completedIf e.state).entries.find? token.hash = some e := by
      rw [hlike.entries, (find_eq_some he).1]
    split
    · next hbody => exact (keeps_drop hk hbody).trans hlike.keeps
    · next body hbody =>
      refine Keeps.trans (keeps_put hk ?_ ?_ ?_) hlike.keeps
      · rfl
      · simp [bodyBytes, hbody]
      · simp [bodyCount, hbody]

variable (t) in
theorem keeps_expireActiveWithoutBody (hash : Uint256) :
    Keeps t (t.expireActiveWithoutBody hash).2 := by
  unfold expireActiveWithoutBody
  split
  · exact .refl t
  · next e hk =>
    split_ifs with hno
    · exact .refl t
    · have hlike := like_completedIf t e.state
      have hbody : e.body = none := by
        push Not at hno
        simpa using hno.2
      exact (keeps_drop (t := (t.completedIf e.state).raise e.cancelled)
        (by rw [(like_raise _ _).entries, hlike.entries, hk]) hbody).trans
        ((like_raise _ _).keeps.trans hlike.keeps)

variable (t) in
theorem keeps_shouldSkip (hash : Uint256) (haveData : Bool) (now : ℤ) :
    Keeps t (t.shouldSkipFetchWhileAsyncPending hash haveData now).2 := by
  unfold shouldSkipFetchWhileAsyncPending
  dsimp only
  split_ifs
  · exact keeps_expireStaleAttempt t hash now
  · exact keeps_expireActiveWithoutBody t hash
  · exact (keeps_expireStaleAttempt _ hash now).trans (keeps_expireActiveWithoutBody t hash)

variable (t) in
theorem keeps_retryInactive (hash : Uint256) (delay now : ℤ) :
    Keeps t (t.retryInactive hash delay now).2 := by
  unfold retryInactive
  split
  · exact .refl t
  · next e hk =>
    split_ifs
    · exact .refl t
    · split
      · next hbody => exact keeps_drop hk hbody
      · next body hbody =>
        refine keeps_put hk rfl ?_ ?_
        · simp [bodyBytes, hbody]
        · simp [bodyCount, hbody]

variable (t) in
theorem keeps_terminalRetained (hash : Uint256) : Keeps t (t.terminalRetained hash) := by
  unfold terminalRetained
  split
  · exact .refl t
  · split_ifs
    · exact .refl t
    · exact keeps_eraseEntry t hash

variable (t) in
theorem keeps_terminal (token : Token) : Keeps t (t.terminal token) := by
  unfold terminal
  split
  · exact .refl t
  · exact keeps_eraseEntry t token.hash

/-! ## Beginning an attempt -/

variable (t) in
theorem begin_cases (hash : Uint256) (now : ℤ) :
    (t.begin hash now = (none, t.expireStaleAttempt hash now)) ∨
    (((t.expireStaleAttempt hash now).entries.find? hash).any LifecycleEntry.live = false ∧
      ∃ e' : LifecycleEntry ι, e'.generation = bumpGeneration t.nextGeneration ∧
        e'.body = (((t.expireStaleAttempt hash now).entries.find? hash).getD {}).body ∧
        t.begin hash now = (some ⟨hash, bumpGeneration t.nextGeneration⟩,
          { (t.expireStaleAttempt hash now).put hash e' with
            nextGeneration := bumpGeneration t.nextGeneration })) := by
  have hgen := (keeps_expireStaleAttempt t hash now).generation
  unfold begin
  dsimp only
  split_ifs with hlive
  · exact .inl rfl
  · refine .inr ⟨?_, { ((t.expireStaleAttempt hash now).entries.find? hash).getD {} with
      state := .admissionPending, updatedAt := now, pendingLease := none
      cancelled := some (.own (bumpGeneration t.nextGeneration))
      generation := bumpGeneration t.nextGeneration }, rfl, rfl, by rw [hgen]⟩
    cases hk : (t.expireStaleAttempt hash now).entries.find? hash with
    | none => rfl
    | some e => simpa [hk] using hlive

theorem total_put_getD {w : Option (RetainedBody ι) → ℕ} (hzero : w none = 0)
    (hbody : e'.body = ((t.entries.find? hash).getD {}).body) :
    (t.entries.insert hash e').total (fun _ e => w e.body) =
      t.entries.total fun _ e => w e.body := by
  have h := total_insert_add (m := t.entries) (k := hash) (v := e')
    (w := fun _ e => w e.body)
  have hold : ((t.entries.find? hash).map fun e => w e.body).getD 0 = w e'.body := by
    rw [hbody]
    cases t.entries.find? hash with
    | none => exact hzero.symm
    | some e => rfl
  rw [hold] at h
  omega

end Edits

/-! ## Counter and limits -/

/-- The counter is the sum of the retained sizes, and both limits hold. -/
structure Inv (t : BlockLifecycle ι) : Prop where
  bytes : t.retainedBytes = t.bodyTotal
  count_le : t.retainedCount ≤ t.maxRetainedCount
  total_le : t.bodyTotal ≤ t.maxRetainedBytes

section Limits

variable {t t' : BlockLifecycle ι} {hash : Uint256} {e : LifecycleEntry ι} {body : RetainedBody ι}
  {now : ℤ} {oldCount oldBytes bytes : ℕ}

theorem Inv.keeps (h : t.Inv) (hk : Keeps t t') : t'.Inv := by
  have hb := hk.bytes
  have := h.bytes
  exact ⟨by omega, hk.maxCount ▸ hk.count_le.trans h.count_le,
    hk.maxBytes ▸ hk.total_le.trans h.total_le⟩

theorem Inv.begin (h : t.Inv) : (t.begin hash now).2.Inv := by
  have hexpire := h.keeps (keeps_expireStaleAttempt t hash now)
  rcases begin_cases t hash now with heq | ⟨-, e', -, hbody, heq⟩
  · rwa [heq]
  · have htotal := total_put_getD (w := fun b => (b.map RetainedBody.bytes).getD 0) rfl hbody
    have hcount := total_put_getD (w := fun b => if b.isSome then 1 else 0) rfl hbody
    rw [heq]
    exact ⟨hexpire.bytes.trans (congrArg Nat.cast htotal.symm), hcount.trans_le hexpire.count_le,
      htotal.trans_le hexpire.total_le⟩

variable (t) in
/-- **Making room** only removes other entries without a live attempt, and says when it succeeded.
-/
theorem makeRoom_spec (hash : Uint256) (oldCount oldBytes bytes : ℕ) :
    Keeps t (t.makeRoom hash oldCount oldBytes bytes).2 ∧
    (∀ h e, t.entries.find? h = some e → h = hash ∨ e.live →
      (t.makeRoom hash oldCount oldBytes bytes).2.entries.find? h = some e) ∧
    ((t.makeRoom hash oldCount oldBytes bytes).1 = true →
      ((t.makeRoom hash oldCount oldBytes bytes).2.retainedCount : ℤ) - oldCount + 1 ≤
        t.maxRetainedCount ∧
      (t.makeRoom hash oldCount oldBytes bytes).2.retainedBytes - oldBytes + bytes ≤
        t.maxRetainedBytes) := by
  fun_induction makeRoom t hash oldCount oldBytes bytes with
  | case1 t hfull hv => exact ⟨Keeps.refl t, fun _ _ hk _ => hk, by simp⟩
  | case2 t hfull victim hv _ ih =>
    obtain ⟨hkeeps, hstay, hroom⟩ := ih
    have herase := keeps_eraseEntry t victim.1
    obtain ⟨hfind, hp⟩ := oldest_eq_some hv
    obtain ⟨hne, -, hdead⟩ : victim.1 ≠ hash ∧ victim.2.body.isSome ∧ ¬victim.2.live := by
      simpa using hp
    refine ⟨hkeeps.trans herase, fun h e hk hor => hstay h e ?_ hor, ?_⟩
    · have hh : h ≠ victim.1 := by
        rintro rfl
        obtain rfl : victim.2 = e := some.inj (hfind.symm.trans hk)
        rcases hor with rfl | hlive
        · exact hne rfl
        · exact hdead hlive
      rw [eraseEntry, hfind]
      exact (find?_erase_of_ne hh).trans hk
    · rw [← herase.maxCount, ← herase.maxBytes]
      exact hroom
  | case3 t hroom =>
    push Not at hroom
    exact ⟨Keeps.refl t, fun _ _ hk _ => hk, fun _ => hroom⟩

variable (t) in
theorem placeBody_totals (hash : Uint256) (body : RetainedBody ι) (now : ℤ) :
    (t.placeBody hash body now).bodyTotal + ((t.entries.find? hash).getD {}).bodyBytes =
      t.bodyTotal + body.bytes ∧
    (t.placeBody hash body now).retainedCount + ((t.entries.find? hash).getD {}).bodyCount =
      t.retainedCount + 1 := by
  have hold : ∀ w : LifecycleEntry ι → ℕ, w {} = 0 →
      w ((t.entries.find? hash).getD {}) = ((t.entries.find? hash).map w).getD 0 := by
    intro w hw
    cases t.entries.find? hash with
    | none => exact hw
    | some e => rfl
  rw [hold bodyBytes rfl, hold bodyCount rfl]
  constructor
  all_goals
    refine total_insert_add.trans ?_
    congr 1
    split_ifs <;> rfl

variable (t) in
theorem replacedCount_le (hash : Uint256) :
    t.replacedCount hash ≤ ((t.entries.find? hash).getD {}).bodyCount := by
  unfold replacedCount replacedBytes bodyCount bodyBytes
  cases ((t.entries.find? hash).getD {}).body with
  | none => simp
  | some body =>
    rw [isSome_some, if_pos rfl]
    split_ifs <;> omega

theorem Inv.placeBody (h : t.Inv)
    (hcount : (t.retainedCount : ℤ) - t.replacedCount hash + 1 ≤ t.maxRetainedCount)
    (hbytes : t.retainedBytes - t.replacedBytes hash + body.bytes ≤ t.maxRetainedBytes) :
    (t.placeBody hash body now).Inv := by
  obtain ⟨htotal, hnumber⟩ := placeBody_totals t hash body now
  have hreplaced := replacedCount_le t hash
  have hb := h.bytes
  unfold replacedBytes at hbytes
  have hcounter : (t.placeBody hash body now).retainedBytes =
      t.retainedBytes - ((t.entries.find? hash).getD {}).bodyBytes + body.bytes := rfl
  refine ⟨by omega, ?_, ?_⟩
  · show (t.placeBody hash body now).retainedCount ≤ t.maxRetainedCount
    omega
  · show (t.placeBody hash body now).bodyTotal ≤ t.maxRetainedBytes
    omega

theorem replacedBytes_of_keeps {room : BlockLifecycle ι} (hkeeps : Keeps t room)
    (hstay : ∀ e, t.entries.find? hash = some e → room.entries.find? hash = some e) :
    room.replacedBytes hash = t.replacedBytes hash := by
  unfold replacedBytes
  cases hk : t.entries.find? hash with
  | some e => rw [hstay e hk]
  | none =>
    cases hk' : room.entries.find? hash with
    | none => rfl
    | some e' =>
      obtain ⟨e, he, -⟩ := hkeeps.generations hash e' hk'
      simp [hk] at he

variable (t) in
theorem retain_cases (hash : Uint256) (body : RetainedBody ι) (now : ℤ) :
    t.retain hash body now = (false, t) ∨
    ∃ room : BlockLifecycle ι, Keeps (t.pruneExpiredRetained now) room ∧
      (∀ h e, (t.pruneExpiredRetained now).entries.find? h = some e → h = hash ∨ e.live →
        room.entries.find? h = some e) ∧
      (t.retain hash body now = (false, room) ∨
        ((room.retainedCount : ℤ) - room.replacedCount hash + 1 ≤ room.maxRetainedCount ∧
          room.retainedBytes - room.replacedBytes hash + body.bytes ≤ room.maxRetainedBytes) ∧
        t.retain hash body now = (true, room.placeBody hash body now)) := by
  unfold retain
  dsimp only
  split_ifs with hreject hroom
  · exact .inl rfl
  all_goals
    generalize t.pruneExpiredRetained now = p at *
    obtain ⟨hkeeps, hstay, hfits⟩ :=
      makeRoom_spec p hash (p.replacedCount hash) (p.replacedBytes hash) body.bytes
    refine .inr ⟨_, hkeeps, hstay, ?_⟩
  · exact .inl rfl
  · refine .inr ⟨?_, rfl⟩
    have hsame := replacedBytes_of_keeps hkeeps fun e he => hstay hash e he (.inl rfl)
    have hfits := hfits (by simpa using hroom)
    generalize p.makeRoom hash _ _ _ = room at *
    rw [replacedCount, hsame, hkeeps.maxCount, hkeeps.maxBytes]
    exact hfits

theorem Inv.retain (h : t.Inv) : (t.retain hash body now).2.Inv := by
  rcases retain_cases t hash body now with heq | ⟨room, hkeeps, -, heq | ⟨⟨hcount, hbytes⟩, heq⟩⟩
  · rwa [heq]
  · rw [heq]
    exact (h.keeps (keeps_pruneExpiredRetained t now)).keeps hkeeps
  · rw [heq]
    exact ((h.keeps (keeps_pruneExpiredRetained t now)).keeps hkeeps).placeBody hcount hbytes

end Limits

/-! ## Calls -/

/-- The calls of the table. -/
inductive Call (ι : Type)
  | begin (hash : Uint256)
  | isActive (hash : Uint256)
  | expireStaleAttempts
  | retain (hash : Uint256) (body : RetainedBody ι)
  | nextRetry (preferredParent : Uint256) (ignoreRetryDelay : Bool)
  | refreshRetry (hash : Uint256) (delay : ℤ)
  | queue (token : Token) (pendingLease : Option ℕ) (cancelled : Option CancelFlag)
      (ownedResources : List ℕ)
  | start (token : Token)
  | park (token : Token)
  | completing (token : Token)
  | retry (token : Token) (delay : ℤ)
  | expireActiveWithoutBody (hash : Uint256)
  | shouldSkipFetchWhileAsyncPending (hash : Uint256) (haveData : Bool)
  | retryInactive (hash : Uint256) (delay : ℤ)
  | terminalRetained (hash : Uint256)
  | terminal (token : Token)
  | note (count : ProgressVector → ProgressVector)

/-- A call at a time, with the token that `Begin` returns. -/
def apply (t : BlockLifecycle ι) (now : ℤ) : Call ι → Option Token × BlockLifecycle ι
  | .begin hash => t.begin hash now
  | .isActive hash => (none, (t.isActive hash now).2)
  | .expireStaleAttempts => (none, (t.expireStaleAttempts now).2)
  | .retain hash body => (none, (t.retain hash body now).2)
  | .nextRetry preferredParent ignoreRetryDelay =>
      (none, (t.nextRetry preferredParent now ignoreRetryDelay).2)
  | .refreshRetry hash delay => (none, (t.refreshRetry hash delay now).2)
  | .queue token pendingLease cancelled ownedResources =>
      (none, (t.queue token pendingLease cancelled ownedResources now).2)
  | .start token => (none, (t.start token now).2)
  | .park token => (none, (t.park token now).2)
  | .completing token => (none, (t.completing token now).2)
  | .retry token delay => (none, (t.retry token delay now).2)
  | .expireActiveWithoutBody hash => (none, (t.expireActiveWithoutBody hash).2)
  | .shouldSkipFetchWhileAsyncPending hash haveData =>
      (none, (t.shouldSkipFetchWhileAsyncPending hash haveData now).2)
  | .retryInactive hash delay => (none, (t.retryInactive hash delay now).2)
  | .terminalRetained hash => (none, t.terminalRetained hash)
  | .terminal token => (none, t.terminal token)
  | .note count => (none, t.note count)

/-- The token that a call carries. -/
def Call.token : Call ι → Option Token
  | .queue token _ _ _ | .start token | .park token | .completing token | .retry token _
  | .terminal token => some token
  | _ => none

/-- The table and the tokens issued so far, newest first. -/
def run (t : BlockLifecycle ι) : List (ℤ × Call ι) → BlockLifecycle ι × List Token
  | [] => (t, [])
  | (now, c) :: earlier =>
      let r := run t earlier
      ((r.1.apply now c).2, (r.1.apply now c).1.toList ++ r.2)

/-- The calls that end a live attempt: its own token's `Retry` and `Terminal`, a look at it when it
is stale, and the reclaim of an attempt without a body. -/
def Call.Ends (t : BlockLifecycle ι) (now : ℤ) (hash : Uint256) (e : LifecycleEntry ι) :
    Call ι → Prop
  | .begin h | .isActive h => h = hash ∧ t.stale now e
  | .expireStaleAttempts => t.stale now e
  | .retry token _ | .terminal token => token = ⟨hash, e.generation⟩
  | .expireActiveWithoutBody h => h = hash ∧ e.body = none
  | .shouldSkipFetchWhileAsyncPending h _ => h = hash ∧ (e.body = none ∨ t.stale now e)
  | _ => False

section Calls

variable {t t' : BlockLifecycle ι} {now : ℤ} {hash h : Uint256} {e : LifecycleEntry ι} {c : Call ι}

variable (t) in
theorem keeps_apply (now : ℤ) (c : Call ι)
    (hbegin : ∀ hash, c ≠ .begin hash) (hretain : ∀ hash body, c ≠ .retain hash body) :
    Keeps t (t.apply now c).2 := by
  cases c with
  | begin hash => exact absurd rfl (hbegin hash)
  | isActive hash => exact keeps_expireStaleAttempt t hash now
  | expireStaleAttempts => exact keeps_expireStaleAttempts t now
  | retain hash body => exact absurd rfl (hretain hash body)
  | nextRetry parent ignore => exact keeps_pruneExpiredRetained t now
  | refreshRetry hash delay => exact keeps_refreshRetry t hash delay now
  | queue token lease flag resources => exact keeps_queue t token lease flag resources now
  | start token => exact keeps_start t token now
  | park token => exact keeps_park t token now
  | completing token => exact keeps_completing t token now
  | retry token delay => exact keeps_retry t token delay now
  | expireActiveWithoutBody hash => exact keeps_expireActiveWithoutBody t hash
  | shouldSkipFetchWhileAsyncPending hash haveData => exact keeps_shouldSkip t hash haveData now
  | retryInactive hash delay => exact keeps_retryInactive t hash delay now
  | terminalRetained hash => exact keeps_terminalRetained t hash
  | terminal token => exact keeps_terminal t token
  | note count => exact Like.keeps ⟨rfl, rfl, rfl, rfl, rfl⟩

/-- **One call keeps the counter and the limits.** -/
theorem Inv.apply (hinv : t.Inv) (now : ℤ) (c : Call ι) : (t.apply now c).2.Inv := by
  cases c with
  | begin hash => exact hinv.begin
  | retain hash body => exact hinv.retain
  | _ => exact hinv.keeps (keeps_apply t now _ (by simp) (by simp))

variable {token : Token}

/-- **A call with a token that is not the entry's changes nothing.** -/
theorem apply_of_find_none (hc : c.token = some token) (hfind : t.find token = none) :
    t.apply now c = (none, t) := by
  cases c with
  | queue token' | start token' | park token' | completing token' | retry token'
  | terminal token' =>
    obtain rfl : token' = token := some.inj hc
    simp [apply, queue, start, park, completing, retry, terminal, hfind]
  | _ => simp [Call.token] at hc

/-! ## Live attempts -/

theorem find?_put_of_ne {e' : LifecycleEntry ι} (hne : h ≠ hash) :
    (t.put hash e').entries.find? h = t.entries.find? h :=
  find?_insert_of_ne hne

theorem find?_eraseEntry_of_ne (hne : h ≠ hash) :
    (t.eraseEntry hash).entries.find? h = t.entries.find? h := by
  unfold eraseEntry
  split
  · rfl
  · exact find?_erase_of_ne hne

theorem find?_expireEntry_of_ne {resources : List ℕ} {e' : LifecycleEntry ι} (hne : h ≠ hash) :
    (t.expireEntry hash now e' resources).entries.find? h = t.entries.find? h := by
  unfold expireEntry
  split_ifs
  · exact find?_insert_of_ne hne
  · exact find?_erase_of_ne hne

theorem find?_expireStaleAttempt (hk : t.entries.find? h = some e)
    (hends : ¬(hash = h ∧ t.stale now e)) :
    (t.expireStaleAttempt hash now).entries.find? h = some e := by
  unfold expireStaleAttempt
  split
  · exact hk
  · next e' hk' =>
    split_ifs with hstale
    · have hne : h ≠ hash := by
        rintro rfl
        obtain rfl : e = e' := some.inj (hk.symm.trans hk')
        exact hends ⟨rfl, hstale⟩
      rw [find?_expireEntry_of_ne hne, hk]
    · exact hk

theorem find?_expireStaleAttempts (hk : t.entries.find? h = some e) (hends : ¬t.stale now e) :
    (t.expireStaleAttempts now).2.entries.find? h = some e := by
  unfold expireStaleAttempts
  refine (foldlRecOn t.entries.entries _ (motive := fun acc : ℕ × BlockLifecycle ι =>
    acc.2.entries.find? h = some e ∧ acc.2.asyncStaleAfter = t.asyncStaleAfter) ⟨hk, rfl⟩ ?_).1
  rintro acc ⟨hacc, hafter⟩ item -
  split
  · exact ⟨hacc, hafter⟩
  · next e' hk' =>
    split_ifs with hstale
    · have hne : h ≠ item.1 := by
        intro heq
        obtain rfl : e = e' := some.inj (hacc.symm.trans (heq ▸ hk'))
        rw [stale, hafter] at hstale
        exact hends hstale
      refine ⟨by rw [find?_expireEntry_of_ne hne, hacc], ?_⟩
      rw [← hafter]
      unfold expireEntry
      split_ifs <;> rfl
    · exact ⟨hacc, hafter⟩

theorem find?_pruneExpiredRetained (now : ℤ) (hk : t.entries.find? h = some e) (hlive : e.live) :
    (t.pruneExpiredRetained now).entries.find? h = some e := by
  unfold pruneExpiredRetained
  refine foldlRecOn t.entries.entries _
    (motive := fun t' : BlockLifecycle ι => t'.entries.find? h = some e) hk ?_
  intro t' ht' item hitem
  split_ifs with hold
  · have hne : h ≠ item.1 := by
      rintro rfl
      have heq := value_unique hitem (find?_eq_some_iff.1 hk)
      simp [heq, hlive] at hold
    rw [find?_eraseEntry_of_ne hne, ht']
  · exact ht'

/-- The attempt is still live. -/
def StillLive (t : BlockLifecycle ι) (hash : Uint256) (generation : ℕ) : Prop :=
  ∃ e, t.entries.find? hash = some e ∧ e.live ∧ e.generation = generation

section

variable (hk : t.entries.find? h = some e)

include hk

theorem ne_of_entry {e₀ : LifecycleEntry ι} (hk₀ : t.entries.find? hash = some e₀)
    (hne : e₀ ≠ e) : h ≠ hash := by
  rintro rfl
  exact hne (some.inj (hk₀.symm.trans hk))

theorem ne_of_token {e₀ : LifecycleEntry ι} (he : t.find token = some e₀)
    (hends : token ≠ ⟨h, e.generation⟩) : h ≠ token.hash := by
  obtain ⟨hk₀, hgen⟩ := find_eq_some he
  rintro rfl
  obtain rfl : e = e₀ := some.inj (hk.symm.trans hk₀)
  exact hends (show token = ⟨token.hash, e.generation⟩ by rw [hgen])

variable (hlive : e.live)

include hlive

theorem StillLive.of_find? : StillLive t h e.generation :=
  ⟨e, hk, hlive, rfl⟩

theorem stillLive_put {e₀ e' : LifecycleEntry ι}
    (hk₀ : t.entries.find? hash = some e₀) (hgen : e'.generation = e₀.generation)
    (hlive' : e₀.live → e'.live) (hentries : t'.entries = (t.put hash e').entries) :
    StillLive t' h e.generation := by
  by_cases hh : h = hash
  · subst hh
    obtain rfl : e = e₀ := some.inj (hk.symm.trans hk₀)
    exact ⟨e', by rw [hentries]; exact find?_insert_self, hlive' hlive, hgen⟩
  · exact ⟨e, by rw [hentries, find?_put_of_ne hh, hk], hlive, rfl⟩

theorem stillLive_retain {body : RetainedBody ι} :
    StillLive (t.retain hash body now).2 h e.generation := by
  have hprune := find?_pruneExpiredRetained now hk hlive
  rcases retain_cases t hash body now with heq | ⟨room, -, hstay, heq | ⟨-, heq⟩⟩
  · rw [heq]
    exact .of_find? hk hlive
  · rw [heq]
    exact .of_find? (hstay h e hprune (.inr hlive)) hlive
  · rw [heq]
    have hroom := hstay h e hprune (.inr hlive)
    by_cases hh : h = hash
    · subst hh
      refine ⟨_, find?_insert_self, ?_, ?_⟩
      · rw [hroom, getD_some, if_pos hlive]
        exact hlive
      · rw [hroom, getD_some, if_pos hlive]
    · exact .of_find? ((find?_insert_of_ne hh).trans hroom) hlive

theorem stillLive_begin
    (hends : ¬(hash = h ∧ t.stale now e)) : StillLive (t.begin hash now).2 h e.generation := by
  have hexpire := find?_expireStaleAttempt hk hends
  rcases begin_cases t hash now with heq | ⟨hdead, e', -, -, heq⟩
  · rw [heq]
    exact .of_find? hexpire hlive
  · have hne : h ≠ hash := by
      rintro rfl
      simp [hexpire, hlive] at hdead
    rw [heq]
    exact .of_find? ((find?_put_of_ne hne).trans hexpire) hlive

theorem stillLive_retry {delay : ℤ}
    (hends : token ≠ ⟨h, e.generation⟩) : StillLive (t.retry token delay now).2 h e.generation := by
  unfold retry
  split
  · exact .of_find? hk hlive
  · next e₀ he =>
    have hne := ne_of_token hk he hends
    have hlike := (like_completedIf t e₀.state).entries
    split
    · refine .of_find? ((find?_erase_of_ne hne).trans ?_) hlive
      rw [hlike, hk]
    · refine .of_find? ((find?_put_of_ne hne).trans ?_) hlive
      rw [hlike, hk]

end

theorem find?_expireActiveWithoutBody (hash : Uint256) (hk : t.entries.find? h = some e)
    (hends : ¬(hash = h ∧ e.body = none)) :
    (t.expireActiveWithoutBody hash).2.entries.find? h = some e := by
  unfold expireActiveWithoutBody
  split
  · exact hk
  · next e₀ hk₀ =>
    split_ifs with hno
    · exact hk
    · push Not at hno
      have hne : h ≠ hash := by
        rintro rfl
        obtain rfl : e = e₀ := some.inj (hk.symm.trans hk₀)
        exact hends ⟨rfl, by simpa using hno.2⟩
      refine (find?_erase_of_ne hne).trans ?_
      rw [(like_raise _ _).entries, (like_completedIf t e₀.state).entries, hk]

variable (t) in
theorem asyncStaleAfter_expireActiveWithoutBody (hash : Uint256) :
    (t.expireActiveWithoutBody hash).2.asyncStaleAfter = t.asyncStaleAfter := by
  unfold expireActiveWithoutBody completedIf
  split
  · rfl
  · split_ifs <;> rfl

theorem stillLive_shouldSkip {haveData : Bool} (hk : t.entries.find? h = some e) (hlive : e.live)
    (hends : ¬(hash = h ∧ (e.body = none ∨ t.stale now e))) :
    StillLive (t.shouldSkipFetchWhileAsyncPending hash haveData now).2 h e.generation := by
  have hexpire := find?_expireActiveWithoutBody hash hk
    fun hno => hends ⟨hno.1, .inl hno.2⟩
  have hstale : ¬(hash = h ∧ t.stale now e) := fun hno => hends ⟨hno.1, .inr hno.2⟩
  unfold shouldSkipFetchWhileAsyncPending
  dsimp only
  split_ifs
  · exact .of_find? (find?_expireStaleAttempt hk hstale) hlive
  · exact .of_find? hexpire hlive
  · refine .of_find? (find?_expireStaleAttempt hexpire ?_) hlive
    rw [stale, asyncStaleAfter_expireActiveWithoutBody]
    exact hstale

/-- The token of a call that moves an attempt on. -/
def Call.advances : Call ι → Option Token
  | .queue token _ _ _ | .start token | .park token | .completing token => some token
  | _ => none

theorem apply_of_advances (hc : c.advances = some token) :
    (t.apply now c).2 = t ∨ ∃ e₀ e', t.find token = some e₀ ∧ e'.generation = e₀.generation ∧
      e'.live = true ∧ (t.apply now c).2.entries = (t.put token.hash e').entries := by
  cases c <;> simp only [Call.advances, reduceCtorEq, some.injEq] at hc <;> subst hc
  all_goals
    simp only [apply, queue, start, park, completing]
    split
    · exact .inl rfl
    · next e₀ he =>
      split_ifs
      · exact .inl rfl
      · refine .inr ⟨e₀, _, he, ?_, ?_, rfl⟩
        · rfl
        · rfl

theorem stillLive_of_advances (hk : t.entries.find? h = some e) (hlive : e.live)
    (hc : c.advances = some token) : StillLive (t.apply now c).2 h e.generation := by
  rcases apply_of_advances hc with hsame | ⟨e₀, e', he, hgen, hlive', hentries⟩
  · rw [hsame]
    exact .of_find? hk hlive
  · exact stillLive_put hk hlive (find_eq_some he).1 hgen (fun _ => hlive') hentries

/-- **A live attempt ends only by a call that is about it.** -/
theorem stillLive_apply (hk : t.entries.find? h = some e) (hlive : e.live)
    (hends : ¬c.Ends t now h e) : StillLive (t.apply now c).2 h e.generation := by
  cases c with
  | begin hash => exact stillLive_begin hk hlive hends
  | isActive hash => exact .of_find? (find?_expireStaleAttempt hk hends) hlive
  | expireStaleAttempts => exact .of_find? (find?_expireStaleAttempts hk hends) hlive
  | retain hash body => exact stillLive_retain hk hlive
  | nextRetry parent ignore => exact .of_find? (find?_pruneExpiredRetained now hk hlive) hlive
  | refreshRetry hash delay =>
    unfold apply refreshRetry
    dsimp only
    split
    · exact .of_find? hk hlive
    · next e₀ hk₀ =>
      split
      · exact .of_find? hk hlive
      · refine stillLive_put hk hlive hk₀ ?_ ?_ rfl
        · rfl
        · exact id
  | queue token | start token | park token | completing token =>
    exact stillLive_of_advances hk hlive rfl
  | retry token delay => exact stillLive_retry hk hlive hends
  | expireActiveWithoutBody hash =>
    exact .of_find? (find?_expireActiveWithoutBody hash hk hends) hlive
  | shouldSkipFetchWhileAsyncPending hash haveData => exact stillLive_shouldSkip hk hlive hends
  | retryInactive hash delay =>
    unfold apply retryInactive
    dsimp only
    split
    · exact .of_find? hk hlive
    · next e₀ hk₀ =>
      split_ifs with hlive₀
      · exact .of_find? hk hlive
      · have hne : h ≠ hash := ne_of_entry hk hk₀ fun heq => hlive₀ (heq ▸ hlive)
        split
        · exact .of_find? ((find?_erase_of_ne hne).trans hk) hlive
        · exact .of_find? ((find?_put_of_ne hne).trans hk) hlive
  | terminalRetained hash =>
    unfold apply terminalRetained
    dsimp only
    split
    · exact .of_find? hk hlive
    · next e₀ hk₀ =>
      split_ifs with hlive₀
      · exact .of_find? hk hlive
      · have hne : h ≠ hash := ne_of_entry hk hk₀ fun heq => hlive₀ (heq ▸ hlive)
        exact .of_find? ((find?_eraseEntry_of_ne hne).trans hk) hlive
  | terminal token =>
    unfold apply terminal
    dsimp only
    split
    · exact .of_find? hk hlive
    · next e₀ he =>
      exact .of_find? ((find?_eraseEntry_of_ne (ne_of_token hk he hends)).trans hk) hlive
  | note count => exact .of_find? hk hlive

/-! ## Generations -/

/-- What the tokens issued so far, newest first, have to do with the table, as long as the counter
has not wrapped around. -/
structure Generations (t : BlockLifecycle ι) (issued : List Token) : Prop where
  next : t.nextGeneration = issued.length
  range : ∀ token ∈ issued, 1 ≤ token.generation ∧ token.generation ≤ issued.length
  newest : issued.Pairwise fun a b => b.generation < a.generation
  latest : ∀ h e, t.entries.find? h = some e → e.generation = 0 ∨
    ∀ token ∈ issued, token.hash = h → token.generation ≤ e.generation

variable {issued : List Token}

section

variable (hg : Generations t issued)

include hg

theorem Generations.keeps (hk : Keeps t t') : Generations t' issued where
  next := hk.generation.trans hg.next
  range := hg.range
  newest := hg.newest
  latest h e' he' := by
    obtain ⟨e, he, hgen⟩ := hk.generations h e' he'
    rw [← hgen]
    exact hg.latest h e he

theorem Generations.retain {body : RetainedBody ι} :
    Generations (t.retain hash body now).2 issued := by
  have hprune := hg.keeps (keeps_pruneExpiredRetained t now)
  rcases retain_cases t hash body now with heq | ⟨room, hkeeps, -, heq | ⟨-, heq⟩⟩
  · rwa [heq]
  · rw [heq]
    exact hprune.keeps hkeeps
  · have hroom := hprune.keeps hkeeps
    rw [heq]
    refine ⟨hroom.next, hroom.range, hroom.newest, fun h e' he' => ?_⟩
    dsimp only [placeBody, put] at he'
    rw [find?_insert] at he'
    split_ifs at he' with hh hlive
    all_goals try exact hroom.latest h e' he'
    all_goals
      cases he'
      subst hh
      cases hk : room.entries.find? h with
      | none => exact .inl rfl
      | some e => exact hroom.latest h e hk

theorem Generations.begin (hbound : issued.length + 1 < 2 ^ 64) :
    Generations (t.begin hash now).2 ((t.begin hash now).1.toList ++ issued) := by
  have hexpire := hg.keeps (keeps_expireStaleAttempt t hash now)
  rcases begin_cases t hash now with heq | ⟨-, e', hgen, -, heq⟩
  · rwa [heq]
  · have hbump : bumpGeneration t.nextGeneration = issued.length + 1 := by
      rw [bumpGeneration, hg.next, Nat.mod_eq_of_lt hbound, if_neg (by omega)]
    rw [heq, hbump]
    rw [hbump] at hgen
    refine ⟨by simp, ?_, ?_, ?_⟩
    · intro token htoken
      rcases mem_cons.1 htoken with rfl | htoken
      · simp
      · have := hg.range token htoken
        simp only [toList_some, cons_append, nil_append, length_cons]
        omega
    · refine pairwise_cons.2 ⟨fun token htoken => ?_, hg.newest⟩
      exact Nat.lt_succ_of_le (hg.range token htoken).2
    · intro h e he
      dsimp only [put] at he
      rw [find?_insert] at he
      split_ifs at he with hh
      · cases he
        refine .inr fun token htoken _ => ?_
        rcases mem_cons.1 htoken with rfl | htoken
        · exact hgen.ge
        · exact hgen ▸ (hg.range token htoken).2.trans (Nat.le_succ _)
      · refine (hexpire.latest h e he).imp_right fun hlatest token htoken hhash => ?_
        rcases mem_cons.1 htoken with rfl | htoken
        · exact absurd hhash.symm hh
        · exact hlatest token htoken hhash

/-- **One call keeps the order of generations.** -/
theorem Generations.apply (now : ℤ) (c : Call ι)
    (hbound : ((t.apply now c).1.toList ++ issued).length < 2 ^ 64) :
    Generations (t.apply now c).2 ((t.apply now c).1.toList ++ issued) := by
  cases c with
  | begin hash =>
    rcases begin_cases t hash now with heq | ⟨-, e', -, -, heq⟩
    · have := hg.keeps (keeps_expireStaleAttempt t hash now)
      simpa [BlockLifecycle.apply, heq] using this
    · refine hg.begin ?_
      simpa [BlockLifecycle.apply, heq] using hbound
  | retain hash body => exact hg.retain
  | _ => exact hg.keeps (keeps_apply t now _ (by simp) (by simp))

theorem Generations.find_older {older newer : Token}
    (holder : older ∈ issued) (hnewer : newer ∈ issued) (hhash : older.hash = newer.hash)
    (hlt : older.generation < newer.generation) : t.find older = none := by
  unfold find
  cases hk : t.entries.find? older.hash with
  | none => rfl
  | some e =>
    refine if_pos fun hgen => ?_
    have hpos := (hg.range older holder).1
    rcases hg.latest older.hash e hk with hzero | hlatest
    · omega
    · have := hlatest newer hnewer hhash.symm
      omega

theorem Generations.eq_of_generation {a b : Token} (ha : a ∈ issued)
    (hb : b ∈ issued) (hgen : a.generation = b.generation) : a = b := by
  have hnodup : (issued.map Token.generation).Nodup :=
    pairwise_map.2 (hg.newest.imp fun hlt => hlt.ne')
  exact inj_on_of_nodup_map hnodup ha hb hgen

end

variable (calls : List (ℤ × Call ι))

theorem run_generations (hnew : Generations t [])
    (hbound : (t.run calls).2.length < 2 ^ 64) : Generations (t.run calls).1 (t.run calls).2 := by
  induction calls with
  | nil => exact hnew
  | cons call earlier ih =>
    obtain ⟨now, c⟩ := call
    have hlen : (t.run earlier).2.length < 2 ^ 64 := by
      rw [run, length_append] at hbound
      omega
    exact (ih hlen).apply now c hbound

theorem run_inv (hnew : t.Inv) : (t.run calls).1.Inv := by
  induction calls with
  | nil => exact hnew
  | cons call earlier ih => exact ih.apply call.1 call.2

variable (t) in
theorem limits_apply (now : ℤ) (c : Call ι) :
    (t.apply now c).2.maxRetainedCount = t.maxRetainedCount ∧
      (t.apply now c).2.maxRetainedBytes = t.maxRetainedBytes := by
  cases c with
  | begin hash =>
    have hexpire := keeps_expireStaleAttempt t hash now
    rcases begin_cases t hash now with heq | ⟨-, e', -, -, heq⟩
    all_goals
      rw [apply, heq]
      exact ⟨hexpire.maxCount, hexpire.maxBytes⟩
  | retain hash body =>
    have hprune := keeps_pruneExpiredRetained t now
    rcases retain_cases t hash body now with heq | ⟨room, hkeeps, -, heq | ⟨-, heq⟩⟩
    · rw [apply, heq]
      exact ⟨rfl, rfl⟩
    all_goals
      rw [apply, heq]
      exact ⟨hkeeps.maxCount.trans hprune.maxCount, hkeeps.maxBytes.trans hprune.maxBytes⟩
  | _ =>
    exact ⟨(keeps_apply t now _ (by simp) (by simp)).maxCount,
      (keeps_apply t now _ (by simp) (by simp)).maxBytes⟩

theorem run_limits :
    (t.run calls).1.maxRetainedCount = t.maxRetainedCount ∧
      (t.run calls).1.maxRetainedBytes = t.maxRetainedBytes := by
  induction calls with
  | nil => exact ⟨rfl, rfl⟩
  | cons call earlier ih =>
    obtain ⟨hcount, hbytes⟩ := limits_apply (t.run earlier).1 call.1 call.2
    exact ⟨hcount.trans ih.1, hbytes.trans ih.2⟩

end Calls

/-- A new table. -/
def new (maxRetainedCount maxRetainedBytes : ℕ) (retainedMaxAge asyncStaleAfter : ℤ) :
    BlockLifecycle ι :=
  { maxRetainedCount, maxRetainedBytes, retainedMaxAge, asyncStaleAfter }

/-- **The lifecycle over every run of calls.** The byte counter is the sum of the retained sizes, so
it never falls below zero; count and bytes are within their limits; a live attempt ends only by a
call about it, never by eviction or age; `Begin` issues a token only where no attempt is live; a
token not of the entry's generation changes nothing. While fewer than `2 ^ 64` tokens were issued,
at most one of a block's tokens is live, and an older one changes nothing. -/
theorem lifecycle_invariants (maxRetainedCount maxRetainedBytes : ℕ)
    (retainedMaxAge asyncStaleAfter : ℤ) (calls : List (ℤ × Call ι)) (t : BlockLifecycle ι)
    (issued : List Token)
    (hrun : (new maxRetainedCount maxRetainedBytes retainedMaxAge asyncStaleAfter).run calls =
      (t, issued)) :
    (t.retainedBytes = t.bodyTotal ∧
      ∀ hash e, t.entries.find? hash = some e → (e.bodyBytes : ℤ) ≤ t.retainedBytes) ∧
    (t.retainedCount ≤ maxRetainedCount ∧ t.retainedBytes ≤ maxRetainedBytes) ∧
    (∀ now c hash e, t.entries.find? hash = some e → e.live → ¬Call.Ends t now hash e c →
      StillLive (t.apply now c).2 hash e.generation) ∧
    (∀ hash now token, (t.begin hash now).1 = some token →
      ((t.expireStaleAttempt hash now).entries.find? hash).any LifecycleEntry.live = false) ∧
    (∀ now c token, Call.token c = some token → t.find token = none → t.apply now c = (none, t)) ∧
    (issued.length < 2 ^ 64 →
      (∀ a ∈ issued, ∀ b ∈ issued, a.hash = b.hash → StillLive t a.hash a.generation →
        StillLive t b.hash b.generation → a = b) ∧
      ∀ older ∈ issued, ∀ newer ∈ issued, older.hash = newer.hash →
        older.generation < newer.generation → ∀ now c, Call.token c = some older →
          t.apply now c = (none, t)) := by
  have hinv := run_inv (t := new maxRetainedCount maxRetainedBytes retainedMaxAge asyncStaleAfter)
    calls ⟨rfl, zero_le, zero_le⟩
  have hlimits := run_limits
    (t := new maxRetainedCount maxRetainedBytes retainedMaxAge asyncStaleAfter) calls
  have hgen := run_generations
    (t := new maxRetainedCount maxRetainedBytes retainedMaxAge asyncStaleAfter) calls
    ⟨rfl, by simp, List.Pairwise.nil, by simp [new]⟩
  rw [hrun] at hinv hlimits hgen
  have hcount : t.maxRetainedCount = maxRetainedCount := hlimits.1
  have hmax : t.maxRetainedBytes = maxRetainedBytes := hlimits.2
  refine ⟨⟨hinv.bytes, fun hash e hk => ?_⟩, ⟨hcount ▸ hinv.count_le, ?_⟩, ?_, ?_, ?_, ?_⟩
  · rw [hinv.bytes]
    exact_mod_cast le_total (w := fun _ (e : LifecycleEntry ι) => e.bodyBytes) hk
  · rw [hinv.bytes, ← hmax]
    exact_mod_cast hinv.total_le
  · exact fun now c hash e hk hlive hends => stillLive_apply hk hlive hends
  · intro hash now token htoken
    rcases begin_cases t hash now with heq | ⟨hdead, -⟩
    · rw [heq] at htoken
      simp at htoken
    · exact hdead
  · exact fun now c token hc hfind => apply_of_find_none hc hfind
  · intro hbound
    have hgen := hgen hbound
    refine ⟨fun a ha b hb hhash hlive hlive' => ?_, ?_⟩
    · obtain ⟨e, hk, -, he⟩ := hlive
      obtain ⟨e', hk', -, he'⟩ := hlive'
      obtain rfl : e = e' := some.inj (hk.symm.trans (hhash ▸ hk'))
      exact hgen.eq_of_generation ha hb (he.symm.trans he')
    · intro older holder newer hnewer hhash hlt now c hc
      exact apply_of_find_none hc (hgen.find_older holder hnewer hhash hlt)

/-- A body and its attempt, a second attempt after the first was retried, and a late `Terminal` of
the first. -/
def sampleRun : List (ℤ × Call Unit) :=
  [(3, .begin 7), (2, .retry ⟨7, 1⟩ 5), (1, .begin 7), (0, .retain 7 ⟨some 6, 0, 0, 40, ()⟩)]

/-- The late `Terminal` of the first attempt leaves the second one alone. -/
theorem lifecycle_invariants_sampleRun : ((new 2 100 10 10).run sampleRun).2 = [⟨7, 2⟩, ⟨7, 1⟩] ∧
    ((new 2 100 10 10).run sampleRun).1.retainedBytes = 40 ∧
    ((new 2 100 10 10).run sampleRun).1.apply 4 (.terminal ⟨7, 1⟩) =
      (none, ((new 2 100 10 10).run sampleRun).1) := by
  have h := lifecycle_invariants 2 100 10 10 sampleRun ((new 2 100 10 10).run sampleRun).1
    ((new 2 100 10 10).run sampleRun).2 rfl
  have hissued : ((new 2 100 10 10).run sampleRun).2 = [⟨7, 2⟩, ⟨7, 1⟩] := by decide +kernel
  refine ⟨hissued, by decide +kernel, (h.2.2.2.2.2 ?_).2 ⟨7, 1⟩ ?_ ⟨7, 2⟩ ?_ rfl ?_ 4 _ rfl⟩
  · rw [hissued]
    decide
  · simp [hissued]
  · simp [hissued]
  · decide

end Btx.Node.BlockLifecycle
