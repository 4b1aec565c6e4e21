/-
# Two ways to one chain

What a node holds could depend on the blocks that it has seen come and go. For the nullifiers, the
bridge stores, the pool and the commitment tree it does not (`forks_agree`): each is a function of
the blocks of the active chain. The account registry is well formed in every run, so that its
accounts stay spendable (`run_accounts_spendable`).
-/

import Btx.Validation.AnchorHistory
import Btx.Validation.AnchorRoots
import Mathlib.Logic.Equiv.List
import Mathlib.Tactic.DeriveEncodable

namespace Btx.Validation

open Util Shielded ShieldedState List Option

/-- The recovery exits and the netting manifests that the blocks of a chain, newest first, leave. -/
def StoresOf (env : Env) : List Connection → Finset Uint256 → PartialMap Uint256 (ℤ × ℕ) → Prop
  | [], exits, manifests => exits = ∅ ∧ manifests = .empty
  | c :: chain, exits, manifests => ∃ s₀ s : ShieldedState env.merkle,
    StoresOf env chain s₀.recoveryExitCommitments s₀.nettingManifests ∧
      StoresWritten env c.height c.block s₀ s ∧
      exits = s.recoveryExitCommitments ∧ manifests = s.nettingManifests

/-- The blocks of a chain and their heights, without the undo data. -/
def blocks (chain : List Connection) : List (CBlock × ℕ) := chain.map fun c => (c.block, c.height)

section Forks

variable {env : Env} {chain chain' : List Connection} {s s' s₀ t : ShieldedState env.merkle}
  {c : Connection}

/-- Disconnecting takes out what the block has put in. -/
theorem StoresWritten.disconnectBlock (hw : StoresWritten env c.height c.block s₀ t)
    (hexits : s.recoveryExitCommitments = t.recoveryExitCommitments)
    (hmanifests : s.nettingManifests = t.nettingManifests)
    (h : disconnectBlock env c.height c.block c.undo s = some s') :
    s'.recoveryExitCommitments = s₀.recoveryExitCommitments ∧
      s'.nettingManifests = s₀.nettingManifests := by
  rcases disconnectBlock_cases h with ⟨ds, _, hds, hdb, -⟩ | ⟨hfilter, rfl⟩
  · refine ⟨?_, hw.undone_manifests hds hmanifests hdb⟩
    rw [hdb.recoveryExits, blockUndoData_recoveryExits hds, hexits, hw.recoveryExits,
      Finset.union_sdiff_right, Finset.sdiff_eq_self_iff_disjoint, Finset.disjoint_right]
    exact fun cm hcm => (hw.recoveryExits_new cm (List.mem_toFinset.1 hcm)).2
  · rw [hexits, hmanifests, hw.recoveryExits, hw.nettingManifests]
    simp [blockRecoveryExits, blockManifestStates, shieldedTxs, hfilter, PartialMap.insertAll]

theorem Run.storesOf (h : Run env chain s) :
    StoresOf env chain s.recoveryExitCommitments s.nettingManifests := by
  induction h with
  | start => exact ⟨rfl, rfl⟩
  | connect _ hconnect ih => exact ⟨_, _, ih, connectBlock_storesWritten hconnect, rfl, rfl⟩
  | disconnect _ hdisconnect ih =>
    obtain ⟨s₀, t, h₀, hw, hexits, hmanifests⟩ := ih
    obtain ⟨hexits', hmanifests'⟩ := hw.disconnectBlock hexits hmanifests hdisconnect
    rwa [hexits', hmanifests']

theorem Run.commitments (h : Run env chain s) : s.tree.commitments = chainCommitments chain := by
  induction h with
  | start => rfl
  | connect _ hconnect ih => exact (connectBlock_commitments hconnect).1.trans (by rw [ih]; rfl)
  | disconnect _ hdisconnect ih => exact disconnectBlock_commitments hdisconnect ih

/-- The blocks determine everything that is put in and taken out along the chain. -/
theorem stores_unique (hsame : blocks chain = blocks chain') {e e' : Finset Uint256}
    {n n' : PartialMap Uint256 (ℤ × ℕ)} {m m' : PartialMap Uint256 ℤ}
    (hs : StoresOf env chain e n) (hs' : StoresOf env chain' e' n')
    (ha : AnchorChain env chain m) (ha' : AnchorChain env chain' m') :
    e = e' ∧ n = n' ∧ m = m' ∧ chainCommitments chain = chainCommitments chain' ∧
      activeNullifiers env chain = activeNullifiers env chain' ∧
      activeValueBalances env chain = activeValueBalances env chain' := by
  induction chain generalizing chain' e e' n n' m m' with
  | nil =>
    obtain rfl : chain' = [] := map_eq_nil_iff.1 hsame.symm
    cases ha
    cases ha'
    exact ⟨hs.1.trans hs'.1.symm, hs.2.trans hs'.2.symm, rfl, rfl, rfl, rfl⟩
  | cons c chain ih =>
    obtain ⟨c', chain', rfl, hc, hrest⟩ := map_eq_cons_iff.1 hsame.symm
    obtain ⟨hblock, hheight⟩ := Prod.mk.inj hc
    obtain ⟨s₀, s, h₀, hw, rfl, rfl⟩ := hs
    obtain ⟨s₀', s', h₀', hw', rfl, rfl⟩ := hs'
    cases ha with
    | cons ha hanchors =>
      cases ha' with
      | cons ha' hanchors' =>
        obtain ⟨he, hn, hm, hcommitments, hnullifiers, hbalances⟩ :=
          ih hrest.symm h₀ h₀' ha ha'
        refine ⟨?_, ?_, funext fun a => ?_, ?_, ?_, ?_⟩
        · rw [hw.recoveryExits, hw'.recoveryExits, he, hblock]
        · rw [hw.nettingManifests, hw'.nettingManifests, hn, hblock, hheight]
        · rw [hanchors.after, hanchors'.after, hm, hblock, hheight]
        · rw [chainCommitments, chainCommitments, hcommitments, hblock]
        · exact congrArg₂ (blockNullifiers env · ++ ·) hblock.symm hnullifiers
        · exact congrArg₂ (stateValueBalances env.codec ·.vtx ++ ·) hblock.symm hbalances

/-- **Nodes on one chain agree**, whatever each of them has connected and disconnected on the way
to it: on the spent nullifiers, the claimed recovery exits, the settlement anchors and netting
manifests, the pool, and the commitment tree with its root. -/
theorem forks_agree (h : Run env chain s) (h' : Run env chain' s')
    (hsame : blocks chain = blocks chain') :
    s.nullifiers = s'.nullifiers ∧ s.recoveryExitCommitments = s'.recoveryExitCommitments ∧
      s.settlementAnchors = s'.settlementAnchors ∧ s.nettingManifests = s'.nettingManifests ∧
      s.pool = s'.pool ∧ s.tree.commitments = s'.tree.commitments ∧ s.tree.root = s'.tree.root := by
  obtain ⟨hexits, hmanifests, hanchors, hcommitments, hnullifiers, hbalances⟩ :=
    stores_unique hsame h.storesOf h'.storesOf h.anchorChain h'.anchorChain
  have htree : s.tree.commitments = s'.tree.commitments := by
    rw [h.commitments, h'.commitments, hcommitments]
  refine ⟨?_, hexits, hanchors, hmanifests, ShieldedPoolBalance.ext ?_, htree, ?_⟩
  · rw [h.nullifiers.2.2, h'.nullifiers.2.2, hnullifiers]
  · rw [h.pool, h'.pool, hbalances]
  · rw [ShieldedMerkleTree.root, ShieldedMerkleTree.root,
      ShieldedMerkleTree.frontier_eq_of_commitments_eq htree]

end Forks

theorem withdrawBlock_disconnects : (disconnectBlock sampleEnv 2 withdrawBlock afterWithdraw.2
      afterWithdraw.1.shielded).isSome = true := by
  decide

/-- Another node has connected the withdrawal as well, and a reorganization took it off again. -/
theorem forks_agree_reorganized :
    afterDeposit.1.shielded.tree.root =
        ((disconnectBlock sampleEnv 2 withdrawBlock afterWithdraw.2
          afterWithdraw.1.shielded).get withdrawBlock_disconnects).tree.root ∧
      afterDeposit.1.shielded.tree.root ≠ afterWithdraw.1.shielded.tree.root := by
  have hrun := run_afterWithdraw.disconnect (Option.some_get withdrawBlock_disconnects).symm
  obtain ⟨-, -, -, -, -, -, hroot⟩ := forks_agree run_afterDeposit hrun rfl
  exact ⟨hroot, by decide⟩

/-! ## The account registry -/

section Registry

variable {env : Env} {chain : List Connection} {s : ShieldedState env.merkle} {R : RegistryHash}

/-- In every run the registry holds valid entries, each at its own index. -/
theorem Run.registry_wellFormed (hR : R.Lawful env.accounts) (h : Run env chain s) :
    s.registry.WellFormed env.accounts R := by
  induction h with
  | start => exact ShieldedAccountRegistryState.wellFormed_empty
  | connect _ hconnect ih =>
    obtain ⟨_, _, hconn⟩ := connectBlock_connected hconnect
    exact ih.appendPrepared hR hconn.registry
  | disconnect _ hdisconnect ih =>
    rcases disconnectBlock_cases hdisconnect with ⟨_, _, -, -, -, -, hregistry⟩ | ⟨-, rfl⟩
    · exact ih.truncate hregistry
    · exact ih

/-- **Every registered account stays spendable**, whatever is connected and disconnected: its spend
witness is built and verifies against the root. The byte format of a leaf is assumed to read back
what it writes, and no hash to be null. -/
theorem run_accounts_spendable (hR : R.Lawful env.accounts) (h : Run env chain s)
    (hnull : ∀ m ∈ s.registry.rootMessages R, ¬(R.hash m).IsNull)
    {i : ℕ} (hi : i < s.registry.entries.length) :
    ∃ witness, s.registry.buildSpendWitness R i = some witness ∧
      s.registry.verifySpendWitness R witness (s.registry.root R) = true :=
  (h.registry_wellFormed hR).buildSpendWitness_verifies hnull (getElem?_eq_getElem hi)

end Registry

instance encodableUInt8 : Encodable UInt8 :=
  .ofLeftInverse UInt8.toNat UInt8.ofNat fun _ => UInt8.ofNat_toNat

instance encodableUint256 : Encodable Uint256 :=
  .ofLeftInverse BitVec.toNat (BitVec.ofNat 256) fun _ => BitVec.ofNat_toNat _ _

deriving instance Encodable for AccountDomain, CompactPublicAccount, ShieldedAccountLeaf

/-- A leaf is written as its number, in as many bytes and one more. -/
def sampleRegistryHash : RegistryHash where
  hash
    | .entry _ commitment _ _ => commitment
    | .node left right => left + right
    | .empty => 1
  serialize leaf := replicate (Encodable.encode leaf + 1) 0
  deserialize
    | [] => none
    | _ :: bytes => Encodable.decode bytes.length

theorem sampleRegistryHash_lawful : sampleRegistryHash.Lawful sampleAccounts where
  deserialize_nil := rfl
  deserialize_serialize leaf _ := by simp [sampleRegistryHash, replicate_succ]
  entryHash _ _ _ _ := rfl

/-- The account of note 5. -/
theorem deposit_spendable : ∃ witness,
    afterDeposit.1.shielded.registry.buildSpendWitness sampleRegistryHash 0 = some witness ∧
      afterDeposit.1.shielded.registry.verifySpendWitness sampleRegistryHash witness
        (afterDeposit.1.shielded.registry.root sampleRegistryHash) = true :=
  run_accounts_spendable sampleRegistryHash_lawful run_afterDeposit (by decide +kernel) (by decide)

end Btx.Validation
