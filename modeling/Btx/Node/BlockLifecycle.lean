/-
# The lifecycle of an expensive block check

`MatMulBlockLifecycle` (`src/node/matmul_block_lifecycle.h`): the retained body of a block, the
state of its attempt, its generation, and the resources it holds. The oldest body of an entry with
no live attempt gives way to a new one. The data of a body beside its previous hash are a parameter.
Byte counts are integers, so that a subtraction that goes below zero would show; a `size_t` holds
them where `2 * maxRetainedBytes < 2 ^ 64`.
-/

import Btx.Node.Keys
import Btx.Util.OrderedMap

namespace Btx.Node

open Util

/-- `MatMulBlockLifecycle::State`. -/
inductive LifecycleState
  | bodyRetained
  | admissionPending
  | queued
  | running
  | awaitingQuorum
  | completing
  | transientFailure
  deriving DecidableEq

/-- `IsActive(State)`. -/
def LifecycleState.isActive : LifecycleState → Bool
  | .admissionPending | .queued | .running | .awaitingQuorum | .completing => true
  | .bodyRetained | .transientFailure => false

/-- `RetainedBody`: the block by its previous hash, `none` for a null pointer; `source` stands for
the fields that are only handed on. -/
structure RetainedBody (ι : Type) where
  hashPrevBlock : Option Uint256
  storedAt : ℤ
  retryNotBefore : ℤ
  bytes : ℕ
  source : ι
  deriving DecidableEq

/-- `Token`. -/
structure Token where
  hash : Uint256
  generation : ℕ
  deriving DecidableEq

/-- `ProgressVector`. -/
structure ProgressVector where
  header : ℕ := 0
  body : ℕ := 0
  verifyStarted : ℕ := 0
  verifyCompleted : ℕ := 0
  activeTip : ℕ := 0
  deriving DecidableEq

/-- A cancellation flag: the one that `Begin` makes for its attempt, or one that the caller of
`Queue` shares. -/
inductive CancelFlag
  | own (generation : ℕ)
  | shared (id : ℕ)
  deriving DecidableEq

/-- `Entry`. Leases and owned resources are named by numbers. -/
structure LifecycleEntry (ι : Type) where
  state : LifecycleState := .bodyRetained
  generation : ℕ := 0
  updatedAt : ℤ := 0
  body : Option (RetainedBody ι) := none
  pendingLease : Option ℕ := none
  cancelled : Option CancelFlag := none
  ownedResources : List ℕ := []
  deriving DecidableEq

/-- `MatMulBlockLifecycle`. `raised` lists the flags that were set. -/
structure BlockLifecycle (ι : Type) where
  maxRetainedCount : ℕ
  maxRetainedBytes : ℕ
  retainedMaxAge : ℤ
  asyncStaleAfter : ℤ
  entries : OrderedMap Uint256 (LifecycleEntry ι) := .empty
  retainedBytes : ℤ := 0
  nextGeneration : ℕ := 0
  progress : ProgressVector := {}
  raised : List CancelFlag := []
  deriving DecidableEq

variable {ι : Type}

/-- The bytes of the body of an entry. -/
def LifecycleEntry.bodyBytes (e : LifecycleEntry ι) : ℕ := (e.body.map RetainedBody.bytes).getD 0

/-- Whether an entry has a body, as a number. -/
def LifecycleEntry.bodyCount (e : LifecycleEntry ι) : ℕ := if e.body.isSome then 1 else 0

/-- The time a body was stored; only entries with a body are compared. -/
def LifecycleEntry.storedAt (e : LifecycleEntry ι) : ℤ := (e.body.map RetainedBody.storedAt).getD 0

/-- A live attempt. -/
def LifecycleEntry.live (e : LifecycleEntry ι) : Bool := e.state.isActive

namespace BlockLifecycle

/-! ## Helpers -/

/-- `NextGeneration`: a `uint64_t` that skips zero. -/
def bumpGeneration (g : ℕ) : ℕ := if (g + 1) % 2 ^ 64 = 0 then 1 else (g + 1) % 2 ^ 64

variable (t : BlockLifecycle ι)

/-- `RetainedCount`. -/
def retainedCount : ℕ := t.entries.total fun _ e => e.bodyCount

/-- Sets the flag of an entry. -/
def raise (flag : Option CancelFlag) : BlockLifecycle ι :=
  { t with raised := t.raised ++ flag.toList }

/-- `Find`. -/
def find (t : BlockLifecycle ι) (token : Token) : Option (LifecycleEntry ι) :=
  match t.entries.find? token.hash with
  | none => none
  | some e => if e.generation ≠ token.generation then none else some e

variable (hash : Uint256)

/-- Writes an entry. -/
def put (e : LifecycleEntry ι) : BlockLifecycle ι :=
  { t with entries := t.entries.insert hash e }

/-- `m_entries.erase`. -/
def drop : BlockLifecycle ι :=
  { t with entries := t.entries.erase hash }

/-- `EraseEntry`, at a hash with an entry. -/
def eraseEntry : BlockLifecycle ι :=
  match t.entries.find? hash with
  | none => t
  | some e =>
      { t.raise e.cancelled with
        retainedBytes := t.retainedBytes - e.bodyBytes
        entries := t.entries.erase hash }

/-- A live attempt that was not updated for too long. -/
def stale (now : ℤ) (e : LifecycleEntry ι) : Bool :=
  e.live && !decide (now - e.updatedAt ≤ t.asyncStaleAfter)

/-- The end of a stale attempt: a body stays and can be retried. -/
def expireEntry (now : ℤ) (e : LifecycleEntry ι) (resources : List ℕ) : BlockLifecycle ι :=
  if e.body.isSome then
    (t.raise e.cancelled).put hash { e with
      pendingLease := none, cancelled := none, ownedResources := resources
      state := .transientFailure, updatedAt := now }
  else (t.raise e.cancelled).drop hash

/-- `ExpireStaleAttempt`. -/
def expireStaleAttempt (now : ℤ) : BlockLifecycle ι :=
  match t.entries.find? hash with
  | none => t
  | some e => if t.stale now e then t.expireEntry hash now e [] else t

/-- `PruneExpiredRetained`. -/
def pruneExpiredRetained (now : ℤ) : BlockLifecycle ι :=
  t.entries.entries.foldl (fun t' e =>
    if (e.2.body.any fun b => !e.2.live && decide (t.retainedMaxAge < now - b.storedAt)) then
      t'.eraseEntry e.1 else t') t

/-- `OldestEvictable`. -/
def oldestEvictable (protectedHash : Uint256) : Option (Uint256 × LifecycleEntry ι) :=
  t.entries.oldest (fun h e => h ≠ protectedHash ∧ e.body.isSome ∧ ¬e.live) LifecycleEntry.storedAt

/-! ## Calls -/

/-- `Begin`. -/
def begin (now : ℤ) : Option Token × BlockLifecycle ι :=
  let t := t.expireStaleAttempt hash now
  let e := (t.entries.find? hash).getD {}
  if e.live then (none, t)
  else
    let generation := bumpGeneration t.nextGeneration
    (some ⟨hash, generation⟩, { t.put hash { e with
      state := .admissionPending, updatedAt := now, pendingLease := none
      cancelled := some (.own generation), generation := generation } with
      nextGeneration := generation })

/-- `IsActive`. -/
def isActive (now : ℤ) : Bool × BlockLifecycle ι :=
  let t := t.expireStaleAttempt hash now
  ((t.entries.find? hash).any LifecycleEntry.live, t)

/-- `ExpireStaleAttempts`. Unlike `ExpireStaleAttempt` it leaves the owned resources. -/
def expireStaleAttempts (now : ℤ) : ℕ × BlockLifecycle ι :=
  t.entries.entries.foldl (fun acc item =>
    match acc.2.entries.find? item.1 with
    | none => acc
    | some e =>
        if acc.2.stale now e then (acc.1 + 1, acc.2.expireEntry item.1 now e e.ownedResources)
        else acc) (0, t)

theorem size_eraseEntry {t : BlockLifecycle ι} {hash : Uint256} {e : LifecycleEntry ι}
    (h : t.entries.find? hash = some e) : (t.eraseEntry hash).entries.size < t.entries.size := by
  rw [eraseEntry, h]
  show (t.entries.erase hash).size < t.entries.size
  rw [OrderedMap.size_eq_total, OrderedMap.size_eq_total, OrderedMap.total_eq_add_erase h]
  omega

/-- The loop of `Retain`: whether it found room. -/
def makeRoom (t : BlockLifecycle ι) (hash : Uint256) (oldCount oldBytes bytes : ℕ) :
    Bool × BlockLifecycle ι :=
  if (t.maxRetainedCount : ℤ) < t.retainedCount - oldCount + 1 ∨
      (t.maxRetainedBytes : ℤ) < t.retainedBytes - oldBytes + bytes then
    match h : t.oldestEvictable hash with
    | none => (false, t)
    | some victim =>
        have := size_eraseEntry (OrderedMap.oldest_eq_some h).1
        makeRoom (t.eraseEntry victim.1) hash oldCount oldBytes bytes
  else (true, t)
termination_by t.entries.size

/-- The last part of `Retain`: the body takes its place, with the time the first one was stored. -/
def placeBody (body : RetainedBody ι) (now : ℤ) : BlockLifecycle ι :=
  let e := (t.entries.find? hash).getD {}
  let storedAt := (e.body.map RetainedBody.storedAt).getD now
  let e' : LifecycleEntry ι := { e with body := some { body with storedAt := storedAt } }
  { t.put hash (if e.live then e' else { e' with state := .bodyRetained, updatedAt := now }) with
    retainedBytes := t.retainedBytes - e.bodyBytes + body.bytes }

/-- `old_bytes`. -/
def replacedBytes : ℕ :=
  ((t.entries.find? hash).getD {}).bodyBytes

/-- `old_count`. A body of no bytes is not counted as one that is replaced. -/
def replacedCount : ℕ :=
  if t.replacedBytes hash ≠ 0 then 1 else 0

/-- `Retain`. -/
def retain (body : RetainedBody ι) (now : ℤ) : Bool × BlockLifecycle ι :=
  if body.hashPrevBlock.isNone ∨ t.maxRetainedBytes < body.bytes then (false, t)
  else
    let t := t.pruneExpiredRetained now
    let room := t.makeRoom hash (t.replacedCount hash) (t.replacedBytes hash) body.bytes
    if !room.1 then (false, room.2) else (true, room.2.placeBody hash body now)

/-- The walk of `NextRetry`: the first child of the preferred parent, or else the oldest body. -/
def selectRetry (preferredParent : Uint256) (now : ℤ) (ignoreRetryDelay : Bool) :
    Option (Uint256 × RetainedBody ι) → List (Uint256 × LifecycleEntry ι) →
      Option (Uint256 × RetainedBody ι)
  | selected, [] => selected
  | selected, (hash, e) :: rest =>
      match e.body with
      | none => selectRetry preferredParent now ignoreRetryDelay selected rest
      | some body =>
          if e.live || (!ignoreRetryDelay && decide (now < body.retryNotBefore)) then
            selectRetry preferredParent now ignoreRetryDelay selected rest
          else if body.hashPrevBlock = some preferredParent then some (hash, body)
          else
            match selected with
            | none => selectRetry preferredParent now ignoreRetryDelay (some (hash, body)) rest
            | some s =>
                if body.storedAt < s.2.storedAt then
                  selectRetry preferredParent now ignoreRetryDelay (some (hash, body)) rest
                else selectRetry preferredParent now ignoreRetryDelay selected rest

/-- `NextRetry`. -/
def nextRetry (preferredParent : Uint256) (now : ℤ)
    (ignoreRetryDelay : Bool) : Option (Uint256 × RetainedBody ι) × BlockLifecycle ι :=
  let t := t.pruneExpiredRetained now
  (selectRetry preferredParent now ignoreRetryDelay none t.entries.entries, t)

/-- `RefreshRetry`. -/
def refreshRetry (delay now : ℤ) : Bool × BlockLifecycle ι :=
  match t.entries.find? hash with
  | none => (false, t)
  | some e =>
      match e.body with
      | none => (false, t)
      | some body =>
          (true, t.put hash { e with body := some { body with retryNotBefore := now + delay } })

variable (token : Token)

/-- `Queue`. -/
def queue (pendingLease : Option ℕ)
    (cancelled : Option CancelFlag) (ownedResources : List ℕ) (now : ℤ) :
    Bool × BlockLifecycle ι :=
  match t.find token with
  | none => (false, t)
  | some e =>
      if e.state ≠ .admissionPending then (false, t)
      else (true, t.put token.hash { e with
        pendingLease := pendingLease, cancelled := cancelled, ownedResources := ownedResources
        state := .queued, updatedAt := now })

/-- `Start`. -/
def start (now : ℤ) : Bool × BlockLifecycle ι :=
  match t.find token with
  | none => (false, t)
  | some e =>
      if e.state ≠ .queued ∧ e.state ≠ .awaitingQuorum then (false, t)
      else (true, { t.put token.hash { e with state := .running, updatedAt := now } with
        progress := { t.progress with verifyStarted := t.progress.verifyStarted + 1 } })

/-- `Park`. -/
def park (now : ℤ) : Bool × BlockLifecycle ι :=
  match t.find token with
  | none => (false, t)
  | some e =>
      if e.state ≠ .running then (false, t)
      else (true, t.put token.hash { e with
        pendingLease := none, state := .awaitingQuorum, updatedAt := now })

/-- `++m_progress.verify_completed`. -/
def completed : BlockLifecycle ι :=
  { t with progress := { t.progress with verifyCompleted := t.progress.verifyCompleted + 1 } }

/-- Counts an attempt that ends while it runs or waits for a quorum. -/
def completedIf (state : LifecycleState) : BlockLifecycle ι :=
  if state = .running ∨ state = .awaitingQuorum then t.completed else t

/-- `Completing`. -/
def completing (t : BlockLifecycle ι) (token : Token) (now : ℤ) : Bool × BlockLifecycle ι :=
  match t.find token with
  | none => (false, t)
  | some e =>
      if !e.live then (false, t)
      else (true, (t.put token.hash { e with state := .completing, updatedAt := now }).completed)

/-- `Retry`. -/
def retry (delay now : ℤ) : Bool × BlockLifecycle ι :=
  match t.find token with
  | none => (false, t)
  | some e =>
      match e.body with
      | none => (true, (t.completedIf e.state).drop token.hash)
      | some body => (true, (t.completedIf e.state).put token.hash { e with
          pendingLease := none, cancelled := none, ownedResources := []
          body := some { body with retryNotBefore := now + delay }
          state := .transientFailure, updatedAt := now })

/-- `ExpireActiveWithoutBody`. -/
def expireActiveWithoutBody : Bool × BlockLifecycle ι :=
  match t.entries.find? hash with
  | none => (false, t)
  | some e =>
      if !e.live ∨ e.body.isSome then (false, t)
      else (true, ((t.completedIf e.state).raise e.cancelled).drop hash)

/-- `ShouldSkipFetchWhileAsyncPending`. -/
def shouldSkipFetchWhileAsyncPending (haveData : Bool) (now : ℤ) : Bool × BlockLifecycle ι :=
  if haveData then t.isActive hash now
  else
    let expired := t.expireActiveWithoutBody hash
    if expired.1 then (false, expired.2) else expired.2.isActive hash now

/-- `RetryInactive`. -/
def retryInactive (delay now : ℤ) : Bool × BlockLifecycle ι :=
  match t.entries.find? hash with
  | none => (false, t)
  | some e =>
      if e.live then (false, t)
      else
        match e.body with
        | none => (true, t.drop hash)
        | some body => (true, t.put hash { e with
            body := some { body with retryNotBefore := now + delay }
            state := .transientFailure, updatedAt := now })

/-- `HasRetainedBody`. -/
def hasRetainedBody : Bool :=
  (t.entries.find? hash).any fun e => e.body.isSome

/-- `TerminalRetained`. -/
def terminalRetained : BlockLifecycle ι :=
  match t.entries.find? hash with
  | none => t
  | some e => if e.live then t else t.eraseEntry hash

/-- `Terminal`. -/
def terminal : BlockLifecycle ι :=
  match t.find token with
  | none => t
  | some _ => t.eraseEntry token.hash

/-- `NoteHeaderProgress`, `NoteActiveTipProgress` and `NoteBodyProgress`, by what they count. -/
def note (count : ProgressVector → ProgressVector) : BlockLifecycle ι :=
  { t with progress := count t.progress }

end BlockLifecycle

end Btx.Node
