/-
# Single-use settlement anchors over a history

An egress batch consumes its settlement anchor: `ConnectBlock` removes it from the store, which is
the only record of it. So a digest that was created and consumed can be created and consumed again.
The store is a function of the active chain (`Run.anchorChain`), and a digest is consumed twice
exactly when a second creation is consumed (`anchors_consumed_once_iff`).
-/

import Btx.Validation.BridgeRestore

namespace Btx.Validation

open Util Shielded List Option

/-- The settlement anchors the active chain consumes, each as often as a batch consumes it. -/
def activeConsumedAnchors (env : Env) (chain : List Connection) : List Uint256 :=
  chain.flatMap fun c => blockConsumedAnchors env c.height c.block

/-- The anchor store that the blocks of a chain, newest first, leave. -/
inductive AnchorChain (env : Env) : List Connection → PartialMap Uint256 ℤ → Prop
  | nil : AnchorChain env [] .empty
  | cons {c : Connection} {chain : List Connection} {m m' : PartialMap Uint256 ℤ} :
      AnchorChain env chain m → AnchorsWritten env c.height c.block c.undo m m' →
      AnchorChain env (c :: chain) m'

/-- No batch consumes an anchor of a second creation: where a block creates a digest that the chain
below it has consumed, neither the block nor one above it consumes the digest. -/
def NoReplayedAnchor (env : Env) (chain : List Connection) : Prop :=
  ∀ newer c older, chain = newer ++ c :: older →
    ∀ a ∈ blockCreatedAnchors env c.height c.block, a ∈ activeConsumedAnchors env older →
      a ∉ activeConsumedAnchors env (newer ++ [c])

section History

variable {env : Env} {chain : List Connection} {s s' : ShieldedState env.merkle} {c : Connection}
  {m : PartialMap Uint256 ℤ} {a : Uint256}

/-! ## The store follows the chain -/

/-- Disconnecting gives back the anchor store from before the block. -/
theorem AnchorsWritten.disconnectBlock
    (hw : AnchorsWritten env c.height c.block c.undo m s.settlementAnchors)
    (h : disconnectBlock env c.height c.block c.undo s = some s') : s'.settlementAnchors = m := by
  rcases disconnectBlock_cases h with ⟨ds, _, hds, hdb, -⟩ | ⟨hfilter, rfl⟩
  · exact hw.undoDatabase hds hdb
  · -- the block has no bundle, so it created and consumed nothing
    funext a
    rw [hw.after a]
    simp [blockConsumedAnchors, blockCreatedAnchors, shieldedTxs, hfilter]

/-- **The anchor store is determined by the active chain**, whatever was connected and disconnected
on the way to it. -/
theorem Run.anchorChain (h : Run env chain s) : AnchorChain env chain s.settlementAnchors := by
  induction h with
  | start => exact .nil
  | connect _ hconnect ih =>
    obtain ⟨_, _, hconn⟩ := connectBlock_connected hconnect
    exact ih.cons (hconn.anchorsWritten (connectBlock_storesWritten hconnect))
  | disconnect _ hdisconnect ih =>
    cases ih with
    | cons hchain hw =>
      rw [hw.disconnectBlock hdisconnect]
      exact hchain

/-! ## Consumed twice means created twice -/

theorem activeConsumedAnchors_append (newer older : List Connection) :
    activeConsumedAnchors env (newer ++ older) =
      activeConsumedAnchors env newer ++ activeConsumedAnchors env older :=
  flatMap_append

/-- An anchor that is stored and was consumed was created again, above the block that consumed it.
-/
theorem AnchorChain.recreated (h : AnchorChain env chain m) (hstored : (m a).isSome)
    (hconsumed : a ∈ activeConsumedAnchors env chain) :
    ∃ newer c older, chain = newer ++ c :: older ∧
      a ∈ blockCreatedAnchors env c.height c.block ∧ a ∈ activeConsumedAnchors env older := by
  induction h with
  | nil => cases hconsumed
  | @cons c chain m m' _ hw ih =>
    rw [hw.after a] at hstored
    split_ifs at hstored with hgone hcreated
    · cases hstored
    · have hbelow : a ∈ activeConsumedAnchors env chain :=
        (mem_append.1 hconsumed).resolve_left hgone
      exact ⟨[], c, chain, rfl, hcreated, hbelow⟩
    · have hbelow : a ∈ activeConsumedAnchors env chain :=
        (mem_append.1 hconsumed).resolve_left hgone
      obtain ⟨newer, d, older, rfl, hcreate, hconsume⟩ := ih hstored hbelow
      exact ⟨c :: newer, d, older, rfl, hcreate, hconsume⟩

theorem NoReplayedAnchor.tail (h : NoReplayedAnchor env (c :: chain)) :
    NoReplayedAnchor env chain := by
  rintro newer d older rfl a hcreate hconsume hagain
  exact h (c :: newer) d older rfl a hcreate hconsume (mem_append_right _ hagain)

/-- Without a replay no digest is consumed twice: the block that consumes it again created it itself
or found it stored, so that a block below created it again. -/
theorem AnchorChain.consumed_nodup (h : AnchorChain env chain m)
    (hfresh : NoReplayedAnchor env chain) : (activeConsumedAnchors env chain).Nodup := by
  induction h with
  | nil => exact nodup_nil
  | @cons c chain m m' hchain hw ih =>
    refine nodup_append.2 ⟨hw.consumed_nodup, ih hfresh.tail, ?_⟩
    -- an anchor the new block consumes was created in it, or was stored below it
    rintro a hnew _ hold rfl
    have hlast : a ∈ activeConsumedAnchors env [c] := by
      simpa [activeConsumedAnchors] using hnew
    rcases hw.consumed_known a hnew with hcreate | hstored
    · exact hfresh [] c chain rfl a hcreate hold hlast
    · obtain ⟨newer, d, older, rfl, hcreate, hconsume⟩ := hchain.recreated hstored hold
      exact hfresh (c :: newer) d older rfl a hcreate hconsume (mem_append_left _ hnew)

/-- **When anchors are single-use over a history.** In every reachable state each digest is consumed
by at most one egress batch of the active chain exactly if no batch consumes an anchor that was
created again after its digest had been consumed. -/
theorem anchors_consumed_once_iff (h : Run env chain s) :
    (activeConsumedAnchors env chain).Nodup ↔ NoReplayedAnchor env chain := by
  refine ⟨?_, h.anchorChain.consumed_nodup⟩
  rintro hnodup newer c older rfl a - hbelow habove
  rw [append_cons, activeConsumedAnchors_append] at hnodup
  exact (nodup_append.1 hnodup).2.2 a habove a hbelow rfl

end History

/-! ## A digest consumed twice -/

/-- Anchor 1 is created and consumed. -/
def egressChain : List Connection :=
  [⟨blockOf 4 (egressTx 5 1), 2, afterEgress.2⟩, ⟨blockOf 2 (anchorTx 3), 1, afterAnchor.2⟩]

theorem run_egressChain : Run singleUseEnv egressChain afterEgress.1.shielded :=
  .connect (.connect .start (eq_ok_okValue anchorBlock_accepted))
    (eq_ok_okValue egressBlock_accepted)

/-- One creation and one consumption: nothing is replayed. -/
theorem noReplayedAnchor_egressChain : activeConsumedAnchors singleUseEnv egressChain = [1] ∧
      NoReplayedAnchor singleUseEnv egressChain :=
  ⟨by decide, (anchors_consumed_once_iff run_egressChain).1 (by decide)⟩

theorem secondAnchor_accepted : (connectBlock singleUseEnv (sampleContext 3) afterEgress.1
      (blockOf 6 (anchorTx 3))).toOption.isSome = true := by
  decide

/-- After the anchor transaction is included once more. -/
def afterSecondAnchor : Ledgers singleUseEnv := okValue _ secondAnchor_accepted

theorem secondEgress_accepted : (connectBlock singleUseEnv (sampleContext 4) afterSecondAnchor.1
      (blockOf 7 (egressTx 8 2))).toOption.isSome = true := by
  decide

/-- After the second egress batch of the same anchor. -/
def afterSecondEgress : Ledgers singleUseEnv := okValue _ secondEgress_accepted

def replayChain : List Connection :=
  ⟨blockOf 7 (egressTx 8 2), 4, afterSecondEgress.2⟩ ::
    ⟨blockOf 6 (anchorTx 3), 3, afterSecondAnchor.2⟩ :: egressChain

/-- **An anchor is replayed.** Four accepted blocks: anchor 1 is created and consumed, the same
anchor transaction is included again, and a second batch consumes anchor 1. One settlement of ten
has credited the pool with twenty. -/
theorem anchor_consumed_twice : Run singleUseEnv replayChain afterSecondEgress.1.shielded ∧
      (∀ c ∈ replayChain, singleUseEnv.params.useSingleUseSettlementAnchors c.height = true) ∧
      activeConsumedAnchors singleUseEnv replayChain = [1, 1] ∧
      afterSecondEgress.1.shielded.pool.balance = 20 := by
  refine ⟨?_, ?_, by decide, by decide⟩
  · exact .connect (.connect run_egressChain (eq_ok_okValue secondAnchor_accepted))
      (eq_ok_okValue secondEgress_accepted)
  · simp [replayChain, egressChain, Params.useSingleUseSettlementAnchors,
      Params.isShieldedMatRiCTDisabled, singleUseEnv, activeAt, heightNever]

end Btx.Validation
