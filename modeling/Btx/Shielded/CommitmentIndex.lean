/-
# The tree with its commitment index

`ShieldedMerkleTree` of `src/shielded/merkle_tree.cpp` with the index that finds a leaf by its
position: a vector of the tree itself, a LevelDB store that the whole process shares
(`s_commitment_store`), or absent. A tree keeps the store it was attached to, so stores have names
here; the outcome of a write is an argument of the call. What such a tree is for is `LeafLog`.
-/

import Btx.Shielded.MerkleRoot
import Btx.Util.PartialMap

namespace Btx.Shielded

open Util List Option

/-- `IndexStorageMode`. -/
inductive IndexStorageMode where
  | auto
  | memoryOnly
  | noIndex
  deriving DecidableEq

/-- The stores of the process by name, and the configured one (`s_commitment_store`). -/
structure StoreWorld where
  stores : ℕ → PartialMap ℕ Uint256
  configured : Option ℕ

/-- `CommitmentIndexStore::Write`. -/
def StoreWorld.write (world : StoreWorld) (store position : ℕ) (commitment : Uint256) :
    StoreWorld :=
  { world with
    stores := Function.update world.stores store
      ((world.stores store).insert position commitment) }

/-- `ShieldedMerkleTree` with all its members. -/
structure StoredMerkleTree where
  frontier : MerkleFrontier
  /-- `commitment_index_mem_` -/
  mem : Option (List Uint256)
  /-- `commitment_index_store_` -/
  store : Option ℕ
  /-- `commitment_index_enabled_` -/
  enabled : Bool
  /-- `m_index_storage_mode_` -/
  mode : IndexStorageMode
  /-- `frontier_checkpoints_` -/
  checkpoints : Option (List MerkleFrontier)

/-- `MEM_INDEX_HARD_CAP`. -/
def memIndexHardCap : ℕ := 10000000

namespace StoredMerkleTree

variable (world : StoreWorld)

/-- The constructor. -/
def construct : IndexStorageMode → StoredMerkleTree
  | .noIndex => ⟨.empty, none, none, false, .noIndex, none⟩
  | .memoryOnly => ⟨.empty, some [], none, true, .memoryOnly, some []⟩
  | .auto =>
      match world.configured with
      | some store => ⟨.empty, none, some store, true, .auto, some []⟩
      | none => ⟨.empty, some [], none, true, .auto, some []⟩

/-- `WriteCommitmentAt`: nothing where the source returns false. -/
def writeCommitmentAt (t : StoredMerkleTree) (position : ℕ)
    (commitment : Uint256) (written : Bool) : Option (StoreWorld × StoredMerkleTree) :=
  if !t.enabled then some (world, t)
  else
    match t.store, t.mem with
    | some store, _ =>
        if !written then none else some (world.write store position commitment, t)
    | none, none => none
    | none, some mem =>
        if memIndexHardCap ≤ mem.length ∧ mem.length ≤ position then none
        else if position < mem.length then
          some (world, { t with mem := some (mem.set position commitment) })
        else if position ≠ mem.length then none
        else some (world, { t with mem := some (mem ++ [commitment]) })

/-- `ReadCommitmentAt`, which is `CommitmentAt`. -/
def commitmentAt (t : StoredMerkleTree) (position : ℕ) : Option Uint256 :=
  if !t.enabled then none
  else if t.frontier.size ≤ position then none
  else
    match t.store, t.mem with
    | some store, _ => world.stores store position
    | none, none => none
    | none, some mem => mem[position]?

/-- `HasCommitmentIndex`: the last leaf can be found. -/
def hasCommitmentIndex (t : StoredMerkleTree) : Bool :=
  if !t.enabled then false
  else if t.frontier.size = 0 then true
  else (t.commitmentAt world (t.frontier.size - 1)).isSome

/-- `MaybeRecordFrontierCheckpoint`. -/
def maybeRecordFrontierCheckpoint (t : StoredMerkleTree) : StoredMerkleTree :=
  match t.checkpoints with
  | none => t
  | some checkpoints =>
      if t.frontier.size = 0 ∨ t.frontier.size % frontierCheckpointInterval ≠ 0 then t
      else if checkpoints.getLast?.map (·.size) = some t.frontier.size then t
      else { t with checkpoints := some (checkpoints ++ [t.frontier]) }

variable (H : MerkleHash)

/-- `Append`. -/
def append (world : StoreWorld) (t : StoredMerkleTree) (commitment : Uint256) (written : Bool) :
    Except String (StoreWorld × StoredMerkleTree) :=
  if merkleMaxLeaves ≤ t.frontier.size then throw "ShieldedMerkleTree: tree is full (2^32 leaves)"
  else
    match t.writeCommitmentAt world t.frontier.size commitment written with
    | none => throw "ShieldedMerkleTree: failed to persist commitment index"
    | some (world, t) =>
        pure (world,
          maybeRecordFrontierCheckpoint { t with frontier := t.frontier.append H commitment })

/-! ## Where the index is -/

/-- The four states of an index. -/
inductive IndexKind where
  /-- switched off: appends succeed and nothing is found -/
  | disabled
  /-- switched on, with nothing to write to: appends fail -/
  | absent
  | memory
  | store
  deriving DecidableEq

/-- The state of a tree's index. -/
def indexKind (t : StoredMerkleTree) : IndexKind :=
  if !t.enabled then .disabled
  else
    match t.store, t.mem with
    | some _, _ => .store
    | none, some _ => .memory
    | none, none => .absent

end StoredMerkleTree

open StoredMerkleTree

/-! ## What a tree is for -/

/-- The leaves of a tree, in order. -/
abbrev LeafLog := List Uint256

namespace LeafLog

/-- The index takes one more leaf. -/
def accepts (kind : IndexKind) (ls : LeafLog) (written : Bool) : Bool :=
  match kind with
  | .disabled => true
  | .absent => false
  | .memory => decide (ls.length < memIndexHardCap)
  | .store => written

/-- Add a leaf at the end. -/
def append (kind : IndexKind) (ls : LeafLog) (commitment : Uint256) (written : Bool) :
    Except String LeafLog :=
  if merkleMaxLeaves ≤ ls.length then throw "ShieldedMerkleTree: tree is full (2^32 leaves)"
  else if !accepts kind ls written then
    throw "ShieldedMerkleTree: failed to persist commitment index"
  else pure (ls ++ [commitment])

/-- The leaf at a position, as far as there is an index. -/
def commitmentAt (kind : IndexKind) (ls : LeafLog) (position : ℕ) : Option Uint256 :=
  match kind with
  | .disabled | .absent => none
  | .memory | .store => ls[position]?

end LeafLog

variable (H : MerkleHash)

/-! ## Trees that hold a list of leaves -/

/-- The index is right about the leaves from position `r` on, and everything else the tree keeps is
right about all of them. -/
structure HoldsFrom (r : ℕ) (world : StoreWorld) (t : StoredMerkleTree) (ls : LeafLog) : Prop where
  frontier_eq : t.frontier = frontierOf H ls
  length_le : ls.length ≤ merkleMaxLeaves
  store_mem : t.store.isSome → t.mem = none
  disabled : t.enabled = false → t.store = none ∧ t.mem = none
  store_eq : ∀ id, t.store = some id → ∀ i, r ≤ i → i < ls.length → world.stores id i = ls[i]?
  mem_eq : ∀ mem, t.mem = some mem → mem = ls
  checkpoint_le : ∀ cps, t.checkpoints = some cps → ∀ cp ∈ cps, cp.size ≤ ls.length
  checkpoint_eq : ∀ cps, t.checkpoints = some cps → ∀ cp ∈ cps,
    cp = frontierOf H (ls.take cp.size)
  sorted : ∀ cps, t.checkpoints = some cps → cps.Pairwise (·.size < ·.size)

/-- The tree holds the leaves `ls`. -/
abbrev Holds (world : StoreWorld) (t : StoredMerkleTree) (ls : LeafLog) : Prop :=
  HoldsFrom H 0 world t ls

section Holds

variable {H} {r : ℕ} {world world' : StoreWorld} {t t' : StoredMerkleTree} {ls : LeafLog}

theorem HoldsFrom.size_eq (h : HoldsFrom H r world t ls) : t.frontier.size = ls.length := by
  rw [h.frontier_eq, frontierOf_size]

theorem construct_holds (world : StoreWorld) (mode : IndexStorageMode) :
    Holds H world (construct world mode) [] := by
  cases mode with
  | noIndex | memoryOnly => constructor <;> simp [construct, frontierOf, merkleMaxLeaves]
  | auto =>
    rw [construct]
    split <;> constructor <;> simp [frontierOf, merkleMaxLeaves]

theorem maybeRecordFrontierCheckpoint_eq (t : StoredMerkleTree) :
    t.maybeRecordFrontierCheckpoint = t ∨
      ∃ cps, t.checkpoints = some cps ∧
        t.maybeRecordFrontierCheckpoint =
          { t with checkpoints := some (cps ++ [t.frontier]) } := by
  rw [maybeRecordFrontierCheckpoint]
  split
  · exact .inl rfl
  case h_2 cps hcps =>
    split
    · exact .inl rfl
    · split
      · exact .inl rfl
      · exact .inr ⟨cps, hcps, rfl⟩

theorem HoldsFrom.record (h : HoldsFrom H r world t ls)
    (hold : ∀ cps, t.checkpoints = some cps → ∀ cp ∈ cps, cp.size < ls.length) :
    HoldsFrom H r world t.maybeRecordFrontierCheckpoint ls := by
  obtain heq | ⟨cps, hcps, heq⟩ := maybeRecordFrontierCheckpoint_eq t
  · rw [heq]
    exact h
  · rw [heq]
    refine ⟨h.frontier_eq, h.length_le, h.store_mem, h.disabled, h.store_eq, h.mem_eq, ?_, ?_, ?_⟩
    · rintro _ ⟨⟩ cp hcp
      rcases mem_append.mp hcp with hcp | hcp
      · exact h.checkpoint_le cps hcps cp hcp
      · rw [mem_singleton.mp hcp, h.size_eq]
    · rintro _ ⟨⟩ cp hcp
      rcases mem_append.mp hcp with hcp | hcp
      · exact h.checkpoint_eq cps hcps cp hcp
      · rw [mem_singleton.mp hcp, h.size_eq, take_length]
        exact h.frontier_eq
    · rintro _ ⟨⟩
      refine pairwise_append.mpr ⟨h.sorted cps hcps, pairwise_singleton _ _, ?_⟩
      intro cp hcp cp' hcp'
      rw [mem_singleton.mp hcp', h.size_eq]
      exact hold cps hcps cp hcp

theorem StoreWorld.write_stores (world : StoreWorld) (store position id i : ℕ) (c : Uint256) :
    (world.write store position c).stores id i =
      if id = store ∧ i = position then some c else world.stores id i := by
  rw [StoreWorld.write]
  by_cases hid : id = store
  · subst hid
    by_cases hi : i = position
    · simp [hi, PartialMap.insert]
    · simp [hi, PartialMap.insert]
  · simp [hid]

variable {c : Uint256}

theorem getElem?_concat_eq {i : ℕ} (hi : i < (ls ++ [c]).length) :
    (ls ++ [c])[i]? = if i = ls.length then some c else ls[i]? := by
  rw [length_append, length_singleton] at hi
  split
  case isTrue heq => simp [heq]
  case isFalse hne => rw [getElem?_append_left (by omega)]

theorem HoldsFrom.checkpoint_append (h : HoldsFrom H r world t ls) (c : Uint256) :
    t.frontier.append H c = frontierOf H (ls ++ [c]) ∧
      (∀ cps, t.checkpoints = some cps → ∀ cp ∈ cps, cp.size < (ls ++ [c]).length) ∧
      ∀ cps, t.checkpoints = some cps → ∀ cp ∈ cps,
        cp = frontierOf H ((ls ++ [c]).take cp.size) := by
  refine ⟨?_, fun cps hcps cp hcp => ?_, fun cps hcps cp hcp => ?_⟩
  · rw [frontierOf_append, h.frontier_eq]
    rfl
  · have := h.checkpoint_le cps hcps cp hcp
    rw [length_append, length_singleton]
    omega
  · rw [take_append_of_le_length (h.checkpoint_le cps hcps cp hcp)]
    exact h.checkpoint_eq cps hcps cp hcp

/-- One written position, and the frame: no other cell changes. -/
theorem HoldsFrom.writeCommitmentAt (h : HoldsFrom H r world t ls) (hr : r ≤ ls.length)
    (hroom : ls.length < merkleMaxLeaves) {written : Bool} {t₁ : StoredMerkleTree}
    (hwrite : t.writeCommitmentAt world t.frontier.size c written = some (world', t₁)) :
    HoldsFrom H r world' { t₁ with frontier := t₁.frontier.append H c } (ls ++ [c]) ∧
      t₁.checkpoints = t.checkpoints ∧ t₁.store = t.store ∧ t₁.indexKind = t.indexKind ∧
      t₁.mode = t.mode ∧ world'.configured = world.configured ∧
      ∀ id i, world'.stores id i = world.stores id i ∨
        t.store = some id ∧ i = ls.length ∧ world'.stores id i = some c := by
  obtain ⟨hfrontier, hcp_lt, hcp_eq⟩ := h.checkpoint_append c
  have hlen : (ls ++ [c]).length ≤ merkleMaxLeaves := by
    rw [length_append, length_singleton]
    omega
  have hcp_le := fun cps hcps cp hcp => (hcp_lt cps hcps cp hcp).le
  rw [StoredMerkleTree.writeCommitmentAt, h.size_eq] at hwrite
  split at hwrite
  case isTrue hdisabled =>
    cases hwrite
    have hoff := h.disabled (by simpa using hdisabled)
    refine ⟨⟨hfrontier, hlen, h.store_mem, h.disabled, ?_, ?_, hcp_le, hcp_eq, h.sorted⟩,
      rfl, rfl, rfl, rfl, rfl, fun id i => .inl rfl⟩
    · intro id hid
      rw [hoff.1] at hid
      cases hid
    · intro mem hmem
      rw [hoff.2] at hmem
      cases hmem
  case isFalse henabled =>
    split at hwrite
    case h_1 mem store hstore =>
      split at hwrite
      case isTrue => cases hwrite
      case isFalse =>
        cases hwrite
        refine ⟨⟨hfrontier, hlen, h.store_mem, h.disabled, ?_, ?_, hcp_le, hcp_eq, h.sorted⟩,
          rfl, rfl, rfl, rfl, rfl, fun id i => ?_⟩
        · intro id hid i hlo hi
          obtain rfl : store = id := some.inj (hstore.symm.trans hid)
          rw [StoreWorld.write_stores, getElem?_concat_eq hi]
          split
          case isTrue hnew => rw [if_pos hnew.2]
          case isFalse hnew =>
            have hne : i ≠ ls.length := fun heq => hnew ⟨rfl, heq⟩
            rw [if_neg hne, h.store_eq store hid i hlo]
            rw [length_append, length_singleton] at hi
            omega
        · intro mem hmem
          have := h.store_mem (by rw [hstore]; rfl)
          rw [this] at hmem
          cases hmem
        · rw [StoreWorld.write_stores]
          split
          case isTrue hnew => exact .inr ⟨by rw [hstore, hnew.1], hnew.2, rfl⟩
          case isFalse => exact .inl rfl
    case h_2 => cases hwrite
    case h_3 mem hstore hmem =>
      obtain rfl := h.mem_eq mem hmem
      split at hwrite
      case isTrue => cases hwrite
      case isFalse =>
        rw [if_neg (lt_irrefl _), if_neg (not_not.mpr rfl)] at hwrite
        cases hwrite
        refine ⟨⟨hfrontier, hlen, ?_, ?_, ?_, ?_, hcp_le, hcp_eq, h.sorted⟩,
          rfl, rfl, ?_, rfl, rfl, fun id i => .inl rfl⟩
        · intro hsome
          rw [hstore] at hsome
          cases hsome
        · intro hoff
          exact absurd hoff (by simpa using henabled)
        · intro id hid
          rw [hstore] at hid
          cases hid
        · rintro _ ⟨⟩
          rfl
        · simp only [indexKind, hstore, hmem]

theorem append_eq_ok {written : Bool} (happend : t.append H world c written = .ok (world', t')) :
    t.frontier.size < merkleMaxLeaves ∧
      ∃ t₁, t.writeCommitmentAt world t.frontier.size c written = some (world', t₁) ∧
        t' = maybeRecordFrontierCheckpoint { t₁ with frontier := t₁.frontier.append H c } := by
  rw [append, ite_throw_eq_ok] at happend
  obtain ⟨hroom, happend⟩ := happend
  split at happend
  · cases happend
  case h_2 world₁ t₁ hwrite =>
    obtain ⟨rfl, rfl⟩ := Prod.mk.inj (pure_eq_ok.mp happend)
    exact ⟨not_le.mp hroom, t₁, hwrite, rfl⟩

section

variable (h : HoldsFrom H r world t ls)

include h

/-- **One `Append`**: the tree holds one leaf more, its index is where it was, and the only store
entry that may have changed is that of the new leaf. -/
theorem HoldsFrom.append (hr : r ≤ ls.length)
    {written : Bool} (happend : t.append H world c written = .ok (world', t')) :
    HoldsFrom H r world' t' (ls ++ [c]) ∧ t'.store = t.store ∧ t'.indexKind = t.indexKind ∧
      t'.mode = t.mode ∧ world'.configured = world.configured ∧
      ∀ id i, world'.stores id i = world.stores id i ∨
        t.store = some id ∧ i = ls.length ∧ world'.stores id i = some c := by
  obtain ⟨hroom, t₁, hwrite, rfl⟩ := append_eq_ok happend
  rw [h.size_eq] at hroom
  obtain ⟨hholds, hcheckpoints, hstore, hkind, hmode, hconfigured, hframe⟩ :=
    h.writeCommitmentAt hr hroom hwrite
  have hrecord := hholds.record fun cps hcps =>
    (h.checkpoint_append c).2.1 cps (hcheckpoints ▸ hcps)
  obtain heq | ⟨cps, -, heq⟩ := maybeRecordFrontierCheckpoint_eq
    { t₁ with frontier := t₁.frontier.append H c }
  all_goals
    rw [heq] at hrecord ⊢
    exact ⟨hrecord, hstore, hkind, hmode, hconfigured, hframe⟩

theorem HoldsFrom.writeCommitmentAt_isSome (c : Uint256) (written : Bool) :
    (t.writeCommitmentAt world t.frontier.size c written).isSome =
      LeafLog.accepts t.indexKind ls written := by
  rw [StoredMerkleTree.writeCommitmentAt, indexKind, h.size_eq]
  split
  · rfl
  · split
    case h_1 mem store hstore =>
      rw [hstore]
      cases written <;> rfl
    case h_2 hstore hmem =>
      rw [hstore, hmem]
      rfl
    case h_3 mem hstore hmem =>
      obtain rfl := h.mem_eq mem hmem
      rw [hstore, hmem, if_neg (lt_irrefl _), if_neg (not_not.mpr rfl)]
      by_cases hcap : memIndexHardCap ≤ mem.length
      · rw [if_pos ⟨hcap, le_rfl⟩]
        simpa [LeafLog.accepts] using hcap
      · rw [if_neg fun hboth => hcap hboth.1]
        simpa [LeafLog.accepts] using hcap

theorem HoldsFrom.exists_append (c : Uint256) {written : Bool} (hroom : ls.length < merkleMaxLeaves)
    (haccepts : LeafLog.accepts t.indexKind ls written = true) :
    ∃ world' t', t.append H world c written = .ok (world', t') := by
  rw [← h.writeCommitmentAt_isSome c] at haccepts
  obtain ⟨⟨world', t₁⟩, hwrite⟩ := isSome_iff_exists.mp haccepts
  refine ⟨world', maybeRecordFrontierCheckpoint { t₁ with frontier := t₁.frontier.append H c }, ?_⟩
  rw [StoredMerkleTree.append, if_neg (by rw [h.size_eq]; omega), hwrite]
  rfl

end

/-- An append does to the tree what it does to the log of leaves, failures included. -/
theorem Holds.append_eq (h : Holds H world t ls) (c : Uint256) (written : Bool) :
    (∀ e, LeafLog.append t.indexKind ls c written = .error e →
      t.append H world c written = .error e) ∧
    ∀ ls', LeafLog.append t.indexKind ls c written = .ok ls' →
      ∃ world' t', t.append H world c written = .ok (world', t') ∧ Holds H world' t' ls' ∧
        t'.indexKind = t.indexKind := by
  have hsome := h.writeCommitmentAt_isSome c written
  rw [LeafLog.append]
  by_cases hfull : merkleMaxLeaves ≤ ls.length
  · rw [if_pos hfull]
    refine ⟨fun e he => ?_, fun ls' hls' => nomatch hls'⟩
    cases he
    rw [append, if_pos (by rwa [h.size_eq])]
    rfl
  · rw [if_neg hfull]
    have hunfold : ∀ result, t.writeCommitmentAt world t.frontier.size c written = result →
        t.append H world c written = _ := fun result hwrite => by
      rw [append, if_neg (by rwa [h.size_eq]), hwrite]
    cases hwrite : t.writeCommitmentAt world t.frontier.size c written with
    | none =>
      rw [hwrite] at hsome
      rw [← hsome]
      refine ⟨fun e he => ?_, fun ls' hls' => nomatch hls'⟩
      cases he
      exact hunfold none hwrite
    | some result =>
      rw [hwrite] at hsome
      rw [← hsome, isSome_some, if_neg (by decide)]
      refine ⟨fun e he => (nomatch he : False).elim, fun ls' hls' => ?_⟩
      obtain rfl : ls ++ [c] = ls' := Except.ok.inj hls'
      have happend := hunfold _ hwrite
      obtain ⟨hholds, -, hkind, -⟩ := HoldsFrom.append h zero_le happend
      exact ⟨_, _, happend, hholds, hkind⟩

theorem Holds.commitmentAt_eq (h : Holds H world t ls) (i : ℕ) :
    t.commitmentAt world i = LeafLog.commitmentAt t.indexKind ls i := by
  rw [commitmentAt, indexKind, h.size_eq]
  split
  · rfl
  · by_cases hi : ls.length ≤ i
    · have hnone : ls[i]? = none := getElem?_eq_none hi
      rw [if_pos hi]
      cases t.store with
      | some id => exact hnone.symm
      | none =>
        cases t.mem with
        | none => rfl
        | some mem => exact hnone.symm
    · rw [if_neg hi]
      split
      case h_1 mem store hstore =>
        rw [hstore]
        exact h.store_eq store hstore i (Nat.zero_le i) (not_le.mp hi)
      case h_2 hstore hmem =>
        rw [hstore, hmem]
        rfl
      case h_3 mem hstore hmem =>
        obtain rfl := h.mem_eq mem hmem
        rw [hstore, hmem]
        rfl

theorem Holds.root_eq (h : Holds H world t ls) : t.frontier.root H = .ok (paddedRoot H ls) := by
  rw [h.frontier_eq]
  exact root_frontierOf ls h.length_le

end Holds

/-! ## Leaves appended one by one -/

/-- Append the leaves one by one; the outcome of a store write is given for its position. -/
def StoredMerkleTree.appendAll (written : ℕ → Bool) :
    StoreWorld → StoredMerkleTree → List Uint256 → Except String (StoreWorld × StoredMerkleTree)
  | world, t, [] => pure (world, t)
  | world, t, c :: cs => do
      let s ← t.append H world c (written t.frontier.size)
      appendAll written s.1 s.2 cs

section AppendAll

variable {H} {written : ℕ → Bool} {world world' : StoreWorld} {t t' : StoredMerkleTree}
  {ls : LeafLog}

/-- **What one append keeps, a sequence of appends keeps.** -/
theorem appendAll_invariant {P : StoreWorld → StoredMerkleTree → LeafLog → Prop}
    (step : ∀ {world world' : StoreWorld} {t t' : StoredMerkleTree} {ls : LeafLog} {c : Uint256}
      {b : Bool}, P world t ls → t.append H world c b = .ok (world', t') → P world' t' (ls ++ [c]))
    (h : P world t ls) {cs : List Uint256}
    (happend : t.appendAll H written world cs = .ok (world', t')) : P world' t' (ls ++ cs) := by
  induction cs generalizing world t ls with
  | nil =>
    obtain ⟨rfl, rfl⟩ := Prod.mk.inj (pure_eq_ok.mp happend)
    rwa [append_nil]
  | cons c cs ih =>
    rw [appendAll, bind_eq_ok] at happend
    obtain ⟨⟨world₁, t₁⟩, hfirst, hrest⟩ := happend
    have hall := ih (step h hfirst) hrest
    rwa [append_assoc] at hall

theorem Holds.appendAll (h : Holds H world t ls) {cs : List Uint256}
    (happend : t.appendAll H written world cs = .ok (world', t')) :
    Holds H world' t' (ls ++ cs) ∧ t'.indexKind = t.indexKind := by
  refine appendAll_invariant (P := fun world t₁ ls => Holds H world t₁ ls ∧
    t₁.indexKind = t.indexKind) ?_ ⟨h, rfl⟩ happend
  rintro _ _ _ _ _ _ _ ⟨hholds, hkind⟩ hfirst
  obtain ⟨hholds₁, -, hkind₁, -⟩ := HoldsFrom.append hholds zero_le hfirst
  exact ⟨hholds₁, hkind₁.trans hkind⟩

theorem Holds.exists_appendAll (h : Holds H world t ls) (cs : List Uint256)
    (hroom : ls.length + cs.length ≤ merkleMaxLeaves)
    (haccepts : ∀ ls' : LeafLog, ls'.length < ls.length + cs.length →
      LeafLog.accepts t.indexKind ls' (written ls'.length) = true) :
    ∃ world' t', t.appendAll H written world cs = .ok (world', t') := by
  induction cs generalizing world t ls with
  | nil => exact ⟨world, t, rfl⟩
  | cons c cs ih =>
    rw [length_cons] at hroom haccepts
    have hspec : LeafLog.append t.indexKind ls c (written ls.length) = .ok (ls ++ [c]) := by
      rw [LeafLog.append, if_neg (by omega), haccepts ls (by omega)]
      rfl
    obtain ⟨world₁, t₁, hfirst, hholds, hkind⟩ := (h.append_eq c _).2 _ hspec
    obtain ⟨world', t', hrest⟩ := ih hholds (by simp; omega) fun ls' hls' => by
      rw [hkind]
      refine haccepts ls' (hls'.trans_le ?_)
      simp
      omega
    refine ⟨world', t', ?_⟩
    rw [StoredMerkleTree.appendAll, h.size_eq, hfirst]
    exact hrest

/-- **The root of a tree.** For every sequence of at most `2 ^ 32` leaves, appended to a new tree in
any mode, the root is that of the binary tree of depth 32 over the sequence and empty leaves. The
appends succeed without an index, with a store that takes its writes, and in memory up to the cap.
-/
theorem root_of_appended_leaves (H : MerkleHash) (cs : List Uint256)
    (hlen : cs.length ≤ merkleMaxLeaves) (world : StoreWorld) :
    (∀ mode written world' t',
      (construct world mode).appendAll H written world cs = .ok (world', t') →
        t'.frontier.root H = .ok (paddedRoot H cs)) ∧
    (∀ written, ∃ world' t',
      (construct world .noIndex).appendAll H written world cs = .ok (world', t')) ∧
    (∀ id, world.configured = some id → ∃ world' t',
      (construct world .auto).appendAll H (fun _ => true) world cs = .ok (world', t')) ∧
    (∀ written, cs.length ≤ memIndexHardCap → ∃ world' t',
      (construct world .memoryOnly).appendAll H written world cs = .ok (world', t')) := by
  have hroom : ([] : LeafLog).length + cs.length ≤ merkleMaxLeaves := by simpa using hlen
  refine ⟨fun mode written world' t' happend => ?_, fun written => ?_, fun id hid => ?_,
    fun written hcap => ?_⟩
  · obtain ⟨hholds, -⟩ := (construct_holds world mode).appendAll happend
    rw [nil_append] at hholds
    exact hholds.root_eq
  · exact (construct_holds world .noIndex).exists_appendAll cs hroom fun ls' _ => rfl
  · refine (construct_holds world .auto).exists_appendAll cs hroom fun ls' _ => ?_
    rw [construct, hid]
    rfl
  · refine (construct_holds world .memoryOnly).exists_appendAll cs hroom fun ls' hls' => ?_
    rw [length_nil, zero_add] at hls'
    exact decide_eq_true (hls'.trans_le hcap)

/-- Three leaves in memory. -/
theorem root_of_three_leaves :
    let world : StoreWorld := ⟨fun _ => .empty, none⟩
    ∃ world' t',
      (construct world .memoryOnly).appendAll sumHash (fun _ => false) world [5, 6, 7] =
        .ok (world', t') ∧
      t'.frontier.root sumHash = .ok (paddedRoot sumHash [5, 6, 7]) := by
  intro world
  obtain ⟨hroot, -, -, hmemory⟩ := root_of_appended_leaves sumHash [5, 6, 7] (by decide) world
  obtain ⟨world', t', happend⟩ := hmemory (fun _ => false) (by decide)
  exact ⟨world', t', happend, hroot _ _ world' t' happend⟩

end AppendAll

end Btx.Shielded
