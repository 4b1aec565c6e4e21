/-
# The expansions of the mantissa stream agree

The sequential expansions of `Btx.Matmul.MantissaStream` have written the accepted values of the
blocks so far (`Written`); the counts of the parallel one are those of the blocks so far
(`Counted`), and their sums the places where the values of each block begin (`flatMap_blockWrites`).
-/

import Btx.Matmul.MantissaStream

namespace Btx.Matmul.BMX4

open Util List Option

variable {ks : Keystream} {count : ℕ} {out : List Int8}

/-! ## The accepted values -/

theorem accepted_succ (n : ℕ) : accepted ks (n + 1) = accepted ks n ++ blockValues ks n := by
  rw [accepted, range_succ, flatMap_append, flatMap_singleton]
  rfl

theorem accepted_add (n lanes : ℕ) : accepted ks (n + lanes) =
      accepted ks n ++ (List.range lanes).flatMap fun lane => blockValues ks (n + lane) := by
  rw [accepted, range_add, flatMap_append, flatMap_map]
  rfl

variable {m n fuel region lanes threads : ℕ} {r values : List Int8} {s : Filling} {α : Type}
  {sched : Interleaving} {settings : ParallelSettings}

theorem accepted_isPrefix (h : m ≤ n) : accepted ks m <+: accepted ks n := by
  obtain ⟨k, rfl⟩ := Nat.exists_eq_add_of_le h
  rw [accepted_add]
  exact prefix_append _ _

theorem lt_of_length_accepted_lt (h : (accepted ks m).length < (accepted ks n).length) : m < n :=
  lt_of_not_ge fun hle => h.not_ge (accepted_isPrefix hle).length_le

/-- The output of an expansion: the first `count` accepted values, and the cells behind them as
they were. -/
def IsExpansion (ks : Keystream) (count : ℕ) (out r : List Int8) : Prop :=
  ∃ n, count ≤ (accepted ks n).length ∧ r = (accepted ks n).take count ++ out.drop count

/-- There is only one. -/
theorem IsExpansion.unique {r' : List Int8} (h : IsExpansion ks count out r)
    (h' : IsExpansion ks count out r') : r = r' := by
  obtain ⟨n, hn, rfl⟩ := h
  obtain ⟨n', hn', rfl⟩ := h'
  have htake {m k : ℕ} (hmk : m ≤ k) (hm : count ≤ (accepted ks m).length) :
      (accepted ks k).take count = (accepted ks m).take count := by
    obtain ⟨rest, hrest⟩ : accepted ks m <+: accepted ks k := accepted_isPrefix hmk
    rw [← hrest, take_append_of_le_length hm]
  obtain hle | hle := le_total n n'
  · rw [htake hle hn]
  · rw [htake hle hn']

/-! ## Writing in stream order -/

/-- One value is written, if there is space. -/
def put (count : ℕ) (s : Filling) (v : Int8) : Filling :=
  if s.filled < count then ⟨s.filled + 1, s.out.set s.filled v⟩ else s

theorem foldl_put_of_le (h : count ≤ s.filled) (values : List Int8) :
    values.foldl (put count) s = s := by
  induction values with
  | nil => rfl
  | cons v values ih => rw [foldl_cons, put, if_neg h.not_gt, ih]

theorem putEntry_eq (h : s.filled < count) (values : List Int8) :
    putEntry count values s = values.foldl (put count) s := by
  induction values generalizing s with
  | nil => rfl
  | cons v values ih =>
    rw [putEntry, foldl_cons, put, if_pos h]
    dsimp only
    split_ifs with hfull
    · rw [foldl_put_of_le hfull.ge]
    · exact ih (by show s.filled + 1 < count; omega)

theorem putBlock_eq (bytes : List UInt8) (s : Filling) :
    putBlock count bytes s = (bytes.flatMap mantissaByteTable).foldl (put count) s := by
  induction bytes generalizing s with
  | nil => rfl
  | cons byte bytes ih =>
    rw [putBlock, flatMap_cons, foldl_append]
    split_ifs with hspace
    · rw [ih, putEntry_eq hspace]
    · rw [foldl_put_of_le (not_lt.1 hspace), foldl_put_of_le (not_lt.1 hspace)]

theorem putBlocks_eq (blocks : List (List UInt8)) (s : Filling) : putBlocks count blocks s =
      (blocks.flatMap fun block => block.flatMap mantissaByteTable).foldl (put count) s := by
  induction blocks generalizing s with
  | nil => rfl
  | cons block blocks ih =>
    rw [putBlocks, flatMap_cons, foldl_append]
    split_ifs with hspace
    · rw [ih, putBlock_eq]
    · rw [foldl_put_of_le (not_lt.1 hspace), foldl_put_of_le (not_lt.1 hspace)]

/-- These values have been written, as far as there was space. -/
structure Written (count : ℕ) (out values : List Int8) (s : Filling) : Prop where
  filled : s.filled = min count values.length
  out : s.out = scatter out (consecutive 0 (values.take count))

theorem written_nil (count : ℕ) (out : List Int8) : Written count out [] ⟨0, out⟩ := by
  constructor
  · rw [length_nil, Nat.min_zero]
  · rw [take_nil]; rfl

theorem Written.put (h : Written count out values s)
    (v : Int8) : Written count out (values ++ [v]) (put count s v) := by
  have hfilled := h.filled
  rw [BMX4.put]
  split_ifs with hspace
  · have hlt : values.length < count := by omega
    have htake : (values ++ [v]).take count = values.take count ++ [v] := by
      rw [take_of_length_le (by rw [length_append, length_singleton]; omega),
        take_of_length_le hlt.le]
    constructor
    · show s.filled + 1 = min count (values ++ [v]).length
      rw [length_append, length_singleton]
      omega
    · show s.out.set s.filled v = _
      rw [htake, consecutive_append, scatter_append, ← h.out, zero_add, length_take, ← hfilled]
      rfl
  · have hle : count ≤ values.length := by omega
    constructor
    · rw [hfilled, length_append]
      omega
    · rw [take_append_of_le_length hle]
      exact h.out

theorem Written.foldl_put (h : Written count out values s)
    (more : List Int8) : Written count out (values ++ more) (more.foldl (BMX4.put count) s) := by
  induction more generalizing values s with
  | nil => rwa [append_nil]
  | cons v more ih =>
    have hrest := ih (h.put v)
    rwa [append_assoc] at hrest

theorem Written.isExpansion (h : Written count out (accepted ks n) s)
    (hout : count ≤ out.length) (hn : count ≤ (accepted ks n).length) :
    IsExpansion ks count out s.out := by
  have hlength : ((accepted ks n).take count).length = count := by
    rw [length_take, Nat.min_eq_left hn]
  refine ⟨n, hn, ?_⟩
  rw [h.out, scatter_consecutive (by omega), hlength, take_zero, nil_append, zero_add]

/-! ## One round after the other -/

theorem XofLanes.width_pos (lanes : XofLanes) : 0 < lanes.width := by
  cases lanes <;> decide

theorem Written.streamRound {s : StreamState} (lanes : XofLanes)
    (h : Written count out (accepted ks s.block) s.filling) :
    Written count out (accepted ks (streamRound ks lanes count s).block)
      (streamRound ks lanes count s).filling := by
  have hround := h.foldl_put ((List.range lanes.width).flatMap fun lane =>
    blockValues ks (s.block + lane))
  rw [← accepted_add] at hround
  rw [BMX4.streamRound]
  dsimp only
  rw [putBlocks_eq, flatMap_map]
  exact hround

theorem Written.length_lt (h : Written count out (accepted ks n) s)
    (hspace : s.filled < count) : (accepted ks n).length < count := by
  have hfilled := h.filled
  omega

variable (hout : count ≤ out.length)

include hout in
/-- **What `ExpandMantissaStream` returns.** -/
theorem isExpansion_of_expandMantissaStream {lanes : XofLanes}
    (h : expandMantissaStream ks lanes count fuel out = some r) :
    IsExpansion ks count out r := by
  obtain ⟨s, hloop, rfl⟩ := map_eq_some_iff.1 h
  obtain ⟨hwritten, hdone⟩ := whileLoop_invariant
    (I := fun s : StreamState => Written count out (accepted ks s.block) s.filling)
    (s := ⟨0, 0, out⟩) (fun s hs _ => hs.streamRound lanes) (written_nil count out) hloop
  have hfilled := hwritten.filled
  have hfull : count ≤ s.filling.filled := not_lt.1 (of_decide_eq_false hdone)
  exact hwritten.isExpansion hout (by omega)

/-- **It returns if the keystream has enough values.** -/
theorem exists_expandMantissaStream (lanes : XofLanes) (out : List Int8)
    (hn : count ≤ (accepted ks n).length) (hfuel : n ≤ fuel) :
    ∃ r, expandMantissaStream ks lanes count fuel out = some r := by
  have hwidth := lanes.width_pos
  obtain ⟨s, hloop⟩ : ∃ s, whileLoop (fun s : StreamState => s.filling.filled < count)
      (streamRound ks lanes count) fuel ⟨0, 0, out⟩ = some s := by
    refine exists_whileLoop
      (I := fun s : StreamState => Written count out (accepted ks s.block) s.filling)
      (fun s => n - s.block) (fun s hs _ => hs.streamRound lanes) (fun s hs hspace => ?_)
      (written_nil count out) (by show n - 0 ≤ fuel; omega)
    have hlt := lt_of_length_accepted_lt ((hs.length_lt (of_decide_eq_true hspace)).trans_le hn)
    show n - (s.block + lanes.width) < n - s.block
    omega
  exact ⟨s.filling.out, by rw [expandMantissaStream, hloop, map_some]⟩

/-! ## Two passes -/

theorem acceptCount_eq (block : ℕ) :
    acceptCount (xofBlock41 ks block) = (blockValues ks block).length := by
  rw [acceptCount, blockValues, length_flatMap]

/-- The first pass has collected the blocks before `block`. -/
structure Collected (ks : Keystream) (s : PortableState) : Prop where
  blocks : s.blocks = (List.range s.block).map (xofBlock41 ks)
  total : s.acceptedTotal = (accepted ks s.block).length

theorem Collected.round {s : PortableState} (h : Collected ks s) :
    Collected ks (portableRound ks s) := by
  rw [portableRound]
  constructor
  · rw [h.blocks, range_succ, map_append, map_singleton]
  · rw [h.total, accepted_succ, length_append, acceptCount_eq]

theorem collected_start (ks : Keystream) : Collected ks ⟨[], 0, 0⟩ := ⟨rfl, rfl⟩

/-- The second pass over the collected blocks. -/
theorem Collected.written {s : PortableState} (h : Collected ks s) (count : ℕ) (out : List Int8) :
    Written count out (accepted ks s.block) (putBlocks count s.blocks ⟨0, out⟩) := by
  rw [putBlocks_eq, h.blocks, flatMap_map]
  exact (written_nil count out).foldl_put _

theorem isExpansion_zero (ks : Keystream) (out : List Int8) : IsExpansion ks 0 out out :=
  ⟨0, zero_le, by rw [take_zero, drop_zero, nil_append]⟩

include hout in
/-- **What `ExpandMantissaStreamPortable` returns.** -/
theorem isExpansion_of_expandMantissaStreamPortable
    (h : expandMantissaStreamPortable ks count fuel out = some r) :
    IsExpansion ks count out r := by
  rw [expandMantissaStreamPortable] at h
  split_ifs at h with hzero
  · rw [← some.inj h, hzero]
    exact isExpansion_zero ks out
  · obtain ⟨s, hloop, rfl⟩ := map_eq_some_iff.1 h
    obtain ⟨hs, hdone⟩ := whileLoop_invariant (I := Collected ks) (fun s hs _ => hs.round)
      (collected_start ks) hloop
    have henough : count ≤ s.acceptedTotal := not_lt.1 (of_decide_eq_false hdone)
    exact (hs.written count out).isExpansion hout (hs.total ▸ henough)

theorem exists_expandMantissaStreamPortable (out : List Int8)
    (hn : count ≤ (accepted ks n).length) (hfuel : n ≤ fuel) :
    ∃ r, expandMantissaStreamPortable ks count fuel out = some r := by
  rw [expandMantissaStreamPortable]
  split_ifs with hzero
  · exact ⟨out, rfl⟩
  obtain ⟨s, hloop⟩ : ∃ s, whileLoop (fun s : PortableState => s.acceptedTotal < count)
      (portableRound ks) fuel ⟨[], 0, 0⟩ = some s := by
    refine exists_whileLoop (I := Collected ks) (fun s => n - s.block) (fun s hs _ => hs.round)
      (fun s hs hspace => ?_) (collected_start ks) (by show n - 0 ≤ fuel; omega)
    have htotal : s.acceptedTotal < count := of_decide_eq_true hspace
    have hlt := lt_of_length_accepted_lt ((hs.total ▸ htotal).trans_le hn)
    show n - (s.block + 1) < n - s.block
    omega
  exact ⟨_, by rw [hloop, map_some]⟩

/-! ## Threads -/

theorem flatMap_chunks (jobs chunk threads : ℕ) : ((List.range threads).flatMap fun t =>
        List.range' (t * chunk) (min jobs (t * chunk + chunk) - t * chunk)) =
      List.range (min jobs (threads * chunk)) := by
  induction threads with
  | zero => simp
  | succ threads ih =>
    rw [range_succ, flatMap_append, ih, flatMap_singleton, Nat.add_mul, one_mul,
      range_eq_range', range_eq_range']
    obtain hle | hle := le_total jobs (threads * chunk)
    · rw [Nat.min_eq_left hle, Nat.min_eq_left (by omega), Nat.sub_eq_zero_of_le hle,
        range'_zero, append_nil]
    · rw [Nat.min_eq_right hle]
      have happend := range'_append_1 (s := 0) (m := threads * chunk)
        (n := min jobs (threads * chunk + chunk) - threads * chunk)
      rw [zero_add] at happend
      rw [happend]
      congr 1
      omega

/-- **Every job has one thread**, and the threads together have the jobs in their order. -/
theorem flatten_blockWorkers (jobs threads : ℕ) :
    (blockWorkers jobs threads).flatten = List.range jobs := by
  rw [blockWorkers]
  dsimp only
  split_ifs with hone
  · exact flatten_singleton
  · set k := clampThreads threads jobs with hk
    have hpos : 0 < k := by omega
    have hcover : jobs ≤ k * ((jobs + k - 1) / k) := by
      have h := Nat.lt_div_mul_add hpos (a := jobs + k - 1)
      rw [mul_comm] at h
      omega
    rw [← flatMap_def, flatMap_chunks, Nat.min_eq_left hcover]

/-- **A parallel loop over blocks** fills the stretch that a single loop would fill. -/
theorem parallelForLanes_eq {jobs : ℕ}
    {writes : ℕ → List (ℕ × α)} {out values : List α} {start : ℕ} (hlanes : 0 < lanes)
    (hwrites : (List.range jobs).flatMap writes = consecutive start values)
    (hout : start + values.length ≤ out.length) :
    parallelForLanes sched region lanes jobs threads writes out =
      out.take start ++ values ++ out.drop (start + values.length) := by
  refine parallelFor_eq ?_ hout
  have hpanels := (panels_abut hlanes jobs).flatMap_range'
  rw [Nat.sub_zero, ← range_eq_range', panels, flatMap_map] at hpanels
  rw [flatten_blockWorkers, ← hwrites, ← hpanels, flatMap_assoc]
  refine flatMap_congr fun group _ => ?_
  rw [range'_eq_map_range, flatMap_map]

/-! ## The first pass in parallel -/

theorem parallelForLanes_fill {want : ℕ}
    {l : List α} {f : ℕ → α} {a : α} (hlanes : 0 < lanes) (hwant : l.length ≤ want)
    (hl : l = (List.range l.length).map f) :
    parallelForLanes sched region lanes (want - l.length) threads
        (fun rel => [(l.length + rel, f (l.length + rel))]) (resize l want a) =
      (List.range want).map f := by
  have hwrites : (List.range (want - l.length)).flatMap
      (fun rel => [(l.length + rel, f (l.length + rel))]) =
        consecutive l.length
          ((List.range (want - l.length)).map fun rel => f (l.length + rel)) := by
    rw [consecutive_map_range, ← map_eq_flatMap]
  have hlength : ((List.range (want - l.length)).map fun rel => f (l.length + rel)).length =
      want - l.length := by
    rw [length_map, length_range]
  have hresize : resize l want a = l ++ List.replicate (want - l.length) a := by
    rw [resize, take_of_length_le hwant]
  have hrange : List.range want = List.range (l.length + (want - l.length)) := by
    rw [Nat.add_sub_cancel' hwant]
  rw [hresize, parallelForLanes_eq hlanes hwrites
      (by rw [hlength, length_append, length_replicate]),
    take_left, hlength, drop_eq_nil_of_le (by simp), append_nil, hrange,
    range_add, map_append, ← hl, List.map_map]
  rfl

theorem acceptCount_mod (block : ℕ) :
    acceptCount (xofBlock41 ks block) % 2 ^ 8 = (blockValues ks block).length := by
  have hle : acceptCount (xofBlock41 ks block) ≤ 32 * 2 := by
    have hsum := sum_le_card_nsmul
      ((xofBlock41 ks block).map fun byte => (mantissaByteTable byte).length) 2 (by
        intro c hc
        obtain ⟨byte, -, rfl⟩ := List.mem_map.1 hc
        exact length_mantissaByteTable_le byte)
    rw [length_map, xofBlock41, (ks (UInt64.ofNat block)).2] at hsum
    exact hsum
  rw [Nat.mod_eq_of_lt (by omega), acceptCount_eq]

theorem sum_length_blockValues (m : ℕ) :
    ((List.range m).map fun b => (blockValues ks b).length).sum = (accepted ks m).length := by
  rw [accepted, length_flatMap]

variable (settings) in
theorem ParallelSettings.countLanes_pos : 0 < settings.countLanes := by
  rw [countLanes]
  split_ifs
  · exact settings.lanes.width_pos
  · exact one_pos

variable (settings) in
theorem ParallelSettings.scatterLanes_pos : 0 < settings.scatterLanes := by
  rw [scatterLanes]
  split_ifs <;> decide

/-- The first pass has counted the values of the first blocks, and kept the blocks if it keeps
them; if the values are too few it wants more blocks than it has. -/
structure Counted (ks : Keystream) (settings : ParallelSettings) (count : ℕ) (s : ParallelState) :
    Prop where
  counts : s.acceptCounts =
    (List.range s.acceptCounts.length).map fun b => (blockValues ks b).length
  hashes : settings.cacheHashes = true →
    s.hashes = (List.range s.acceptCounts.length).map (xofBlock41 ks)
  total : s.acceptedTotal = (accepted ks s.acceptCounts.length).length
  want : s.acceptedTotal < count → s.acceptCounts.length < s.wantBlocks

theorem initialMantissaBlockGuess_pos (n : ℕ) : 0 < initialMantissaBlockGuess n := by
  rw [initialMantissaBlockGuess]
  omega

theorem counted_start (ks : Keystream) (settings : ParallelSettings) (count : ℕ) :
    Counted ks settings count
      ⟨[], [], 0, initialParallelMantissaBlockGuess settings.forceUndershoot count, 0⟩ := by
  refine ⟨rfl, fun _ => rfl, rfl, fun _ => ?_⟩
  have hpos := initialMantissaBlockGuess_pos count
  show 0 < initialParallelMantissaBlockGuess _ _
  rw [initialParallelMantissaBlockGuess]
  split_ifs <;> omega

theorem Counted.acceptCounts_round {s : ParallelState} (threads : ℕ)
    (h : Counted ks settings count s) (hwant : s.acceptCounts.length ≤ s.wantBlocks) :
    (parallelRound ks settings threads count s).acceptCounts =
      (List.range s.wantBlocks).map fun b => (blockValues ks b).length := by
  simp only [parallelRound, acceptCount_mod]
  exact parallelForLanes_fill settings.countLanes_pos hwant h.counts

theorem Counted.round {s : ParallelState} (threads : ℕ)
    (h : Counted ks settings count s) (hspace : s.acceptedTotal < count) :
    Counted ks settings count (parallelRound ks settings threads count s) ∧
      (parallelRound ks settings threads count s).acceptCounts.length = s.wantBlocks := by
  have hwant := (h.want hspace).le
  have hcounts := h.acceptCounts_round threads hwant
  have hlength : (parallelRound ks settings threads count s).acceptCounts.length =
      s.wantBlocks := by
    rw [hcounts, length_map, length_range]
  have htotal : (parallelRound ks settings threads count s).acceptedTotal =
      (accepted ks s.wantBlocks).length := by
    rw [← sum_length_blockValues, ← hcounts]
    rfl
  refine ⟨⟨by rw [hlength, hcounts], fun hcache => ?_, by rw [hlength, htotal], fun hfew => ?_⟩,
    hlength⟩
  · rw [hlength, parallelRound]
    dsimp only
    rw [if_pos hcache]
    have hhashes := h.hashes hcache
    have hsame : s.hashes.length = s.acceptCounts.length := by
      rw [hhashes, length_map, length_range]
    rw [← hsame] at hwant hhashes ⊢
    exact parallelForLanes_fill settings.countLanes_pos hwant hhashes
  · rw [hlength]
    show s.wantBlocks < if (parallelRound ks settings threads count s).acceptedTotal < count then _
      else _
    rw [if_pos hfew]
    have := initialMantissaBlockGuess_pos
      (count - (parallelRound ks settings threads count s).acceptedTotal)
    exact Nat.lt_add_of_pos_right this

/-! ## The second pass in parallel -/

theorem blockWrites_eq (pos : ℕ) (values : List Int8) :
    blockWrites count pos values = consecutive pos (values.take (count - pos)) := by
  induction values generalizing pos with
  | nil => rw [take_nil]; rfl
  | cons v values ih =>
    rw [blockWrites]
    split_ifs with hfull
    · rw [Nat.sub_eq_zero_of_le hfull, take_zero]
      rfl
    · have hsub : count - pos = count - (pos + 1) + 1 := by omega
      rw [ih, hsub, take_succ_cons, consecutive]

theorem prefixSums_getD {counts : List ℕ} {b : ℕ} (hb : b < counts.length) (pos : ℕ) :
    (prefixSums pos counts).getD b 0 = pos + (counts.take b).sum := by
  induction counts generalizing pos b with
  | nil => exact absurd hb (Nat.not_lt_zero b)
  | cons c counts ih =>
    cases b with
    | zero => rw [take_zero, sum_nil, add_zero]; rfl
    | succ b =>
      rw [prefixSums, getD_cons_succ, ih (Nat.lt_of_succ_lt_succ hb), take_succ_cons,
        sum_cons, add_assoc]

/-- **The writes of all blocks, from the places where their values begin, fill the output in one
row.** -/
theorem flatMap_blockWrites (m : ℕ) : (List.range m).flatMap (fun b =>
        blockWrites count (accepted ks b).length (blockValues ks b)) =
      consecutive 0 ((accepted ks m).take count) := by
  induction m with
  | zero => rw [show accepted ks 0 = [] from rfl, take_nil]; rfl
  | succ m ih =>
    rw [range_succ, flatMap_append, ih, flatMap_singleton, blockWrites_eq,
      accepted_succ, take_append, consecutive_append, zero_add, length_take]
    obtain hle | hle := le_total count (accepted ks m).length
    · rw [Nat.sub_eq_zero_of_le hle, take_zero]
      rfl
    · rw [Nat.min_eq_right hle]

/-- **What the second pass writes.** -/
theorem Counted.isExpansion {s : ParallelState} (threads : ℕ)
    (h : Counted ks settings count s) (hout : count ≤ out.length)
    (henough : count ≤ s.acceptedTotal) :
    IsExpansion ks count out (scatterBlocks ks settings threads count s out) := by
  set m := s.acceptCounts.length with hm
  have hn : count ≤ (accepted ks m).length := h.total ▸ henough
  have hlength : ((accepted ks m).take count).length = count := by
    rw [length_take, Nat.min_eq_left hn]
  -- the sums say where the values of a block begin
  have hsums (b : ℕ) (hb : b < m) :
      (prefixSums 0 s.acceptCounts).getD b 0 = (accepted ks b).length := by
    rw [prefixSums_getD hb, zero_add, h.counts, ← map_take, take_range,
      Nat.min_eq_left hb.le, sum_length_blockValues]
  have hhash (b : ℕ) (hb : b < m) :
      (if settings.cacheHashes then s.hashes.getD b [] else xofBlock41 ks b) = xofBlock41 ks b := by
    split_ifs with hcache
    · rw [h.hashes hcache, getD_eq_getElem?_getD, getElem?_map, getElem?_range hb]
      rfl
    · rfl
  refine ⟨m, hn, ?_⟩
  rw [scatterBlocks]
  dsimp only
  have hwrites : (List.range m).flatMap (fun b =>
      blockWrites count ((prefixSums 0 s.acceptCounts).getD b 0)
        ((if settings.cacheHashes then s.hashes.getD b [] else xofBlock41 ks b).flatMap
          mantissaByteTable)) = consecutive 0 ((accepted ks m).take count) := by
    rw [← flatMap_blockWrites]
    refine flatMap_congr fun b hb => ?_
    have hb' := mem_range.1 hb
    rw [hsums b hb', hhash b hb']
    rfl
  rw [parallelForLanes_eq settings.scatterLanes_pos hwrites (by omega), hlength, take_zero,
    nil_append, zero_add]

include hout in
/-- **What `ExpandMantissaStreamParallel` returns.** -/
theorem isExpansion_of_expandMantissaStreamParallel
    (h : expandMantissaStreamParallel ks settings threads count fuel out = some r) :
    IsExpansion ks count out r := by
  rw [expandMantissaStreamParallel] at h
  dsimp only at h
  split_ifs at h with hzero hfew
  · rw [← some.inj h, hzero]
    exact isExpansion_zero ks out
  · exact isExpansion_of_expandMantissaStream hout h
  · obtain ⟨s, hloop, rfl⟩ := map_eq_some_iff.1 h
    obtain ⟨hs, hdone⟩ := whileLoop_invariant (I := Counted ks settings count)
      (fun s hs hspace => (hs.round _ (of_decide_eq_true hspace)).1)
      (counted_start ks settings count) hloop
    exact hs.isExpansion _ hout (not_lt.1 (of_decide_eq_false hdone))

variable (settings) in
theorem exists_expandMantissaStreamParallel
    (threads : ℕ) (out : List Int8) (hn : count ≤ (accepted ks n).length) (hfuel : n ≤ fuel) :
    ∃ r, expandMantissaStreamParallel ks settings threads count fuel out = some r := by
  rw [expandMantissaStreamParallel]
  dsimp only
  split_ifs with hzero hfew
  · exact ⟨out, rfl⟩
  · exact exists_expandMantissaStream settings.lanes out hn hfuel
  set k := clampThreads threads (max 1 (count / 4096))
  obtain ⟨s, hloop⟩ : ∃ s, whileLoop (fun s : ParallelState => s.acceptedTotal < count)
      (parallelRound ks settings k count) fuel ⟨[], [], 0,
        initialParallelMantissaBlockGuess settings.forceUndershoot count, 0⟩ = some s := by
    refine exists_whileLoop (I := Counted ks settings count) (fun s => n - s.acceptCounts.length)
      (fun s hs hspace => (hs.round k (of_decide_eq_true hspace)).1) (fun s hs hspace => ?_)
      (counted_start ks settings count) (by show n - 0 ≤ fuel; omega)
    have htotal : s.acceptedTotal < count := of_decide_eq_true hspace
    have hlt := lt_of_length_accepted_lt ((hs.total ▸ htotal).trans_le hn)
    have hwant := hs.want htotal
    rw [(hs.round k htotal).2]
    omega
  exact ⟨_, by rw [hloop, map_some]⟩

/-! ## All of them -/

/-- The ways to expand the stream. -/
inductive Expansion
  | sequential (lanes : XofLanes)
  | portable
  | parallel (settings : ParallelSettings) (threads : ℕ)

/-- The output of an expansion, if its loop ends within `fuel` rounds. -/
def Expansion.run (ks : Keystream) (count fuel : ℕ) (out : List Int8) :
    Expansion → Option (List Int8)
  | sequential lanes => expandMantissaStream ks lanes count fuel out
  | portable => expandMantissaStreamPortable ks count fuel out
  | parallel settings threads => expandMantissaStreamParallel ks settings threads count fuel out

include hout in
/-- Whatever a routine returns is the expansion. -/
theorem Expansion.isExpansion_of_run {e : Expansion} (h : e.run ks count fuel out = some r) :
    IsExpansion ks count out r := by
  cases e with
  | sequential lanes => exact isExpansion_of_expandMantissaStream hout h
  | portable => exact isExpansion_of_expandMantissaStreamPortable hout h
  | parallel settings threads => exact isExpansion_of_expandMantissaStreamParallel hout h

/-- Every routine returns, once enough values are accepted. -/
theorem Expansion.exists_run (e : Expansion) (out : List Int8)
    (hn : count ≤ (accepted ks n).length) (hfuel : n ≤ fuel) :
    ∃ r, e.run ks count fuel out = some r := by
  cases e with
  | sequential lanes => exact exists_expandMantissaStream lanes out hn hfuel
  | portable => exact exists_expandMantissaStreamPortable out hn hfuel
  | parallel settings threads =>
    exact exists_expandMantissaStreamParallel settings threads out hn hfuel

/-- **The expansions agree.** If one of them ends, it has written the first `count` accepted values
of the keystream, low nibble before high, and nothing else; and every other one ends with the same
output: with one block at a time, four or eight, in two passes, or in parallel, with any number of
threads writing in any order, blocks kept or computed again, and any first guess. -/
theorem expansions_agree {e : Expansion} {fuel : ℕ} {r : List Int8} (hout : count ≤ out.length)
    (h : e.run ks count fuel out = some r) :
    (∃ n, count ≤ (accepted ks n).length ∧ r = (accepted ks n).take count ++ out.drop count) ∧
      ∀ e' : Expansion, ∃ fuel₀, ∀ fuel', fuel₀ ≤ fuel' → e'.run ks count fuel' out = some r := by
  have hr := e.isExpansion_of_run hout h
  refine ⟨hr, fun e' => ?_⟩
  obtain ⟨n, hn, -⟩ := hr
  refine ⟨n, fun fuel' hfuel => ?_⟩
  obtain ⟨r', hr'⟩ := e'.exists_run out hn hfuel
  rw [hr', (e'.isExpansion_of_run hout hr').unique (e.isExpansion_of_run hout h)]

/-- The keystream with the byte `0x24` everywhere: its nibbles are the codes of 2 and 1. -/
def constantKeystream : Keystream := fun _ => ⟨List.replicate 32 0x24, List.length_replicate⟩

theorem length_accepted_constantKeystream (n : ℕ) :
    (accepted constantKeystream n).length = 64 * n := by
  have hblock : ∀ block, (blockValues constantKeystream block).length = 64 := fun _ => rfl
  simp [accepted, length_flatMap, hblock, Nat.mul_comm]

/-- As many values as it takes for threads to be used. -/
theorem expansions_agree_constantKeystream :
    Expansion.portable.run constantKeystream (2 ^ 20) (2 ^ 14) (replicate (2 ^ 20) 9) =
        some (accepted constantKeystream (2 ^ 14)) ∧
      ∀ e' : Expansion, ∃ fuel₀, ∀ fuel', fuel₀ ≤ fuel' →
        e'.run constantKeystream (2 ^ 20) fuel' (replicate (2 ^ 20) 9) =
          some (accepted constantKeystream (2 ^ 14)) := by
  have hlength : (accepted constantKeystream (2 ^ 14)).length = 2 ^ 20 :=
    length_accepted_constantKeystream _
  have hout : 2 ^ 20 ≤ (replicate (2 ^ 20) (9 : Int8)).length := length_replicate.ge
  obtain ⟨r, hr⟩ := Expansion.portable.exists_run (replicate (2 ^ 20) 9) hlength.ge le_rfl
  have hall := (expansions_agree hout hr).2
  have heq : r = accepted constantKeystream (2 ^ 14) := by
    refine (Expansion.isExpansion_of_run hout hr).unique ⟨2 ^ 14, hlength.ge, ?_⟩
    rw [take_of_length_le hlength.le, drop_of_length_le length_replicate.le, append_nil]
  rw [heq] at hr hall
  exact ⟨hr, hall⟩

end Btx.Matmul.BMX4
