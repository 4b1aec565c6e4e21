/-
# The check of a sketch

`SketchFreivalds` of `src/matmul/matmul_v4.cpp` compares `x ⬝ S y` with `(Uᵀ x) ⬝ A (B (V y))` for
challenge vectors. The true sketch passes (`freivaldsRound_true`); any other passes a round for at
most two parts in `q` of all challenges (`card_accepting_le`). Hash and stream are parameters.
-/

import Btx.Util.BilinearZeros
import Btx.Util.Pairing
import Btx.Util.Writer
import Btx.Matmul.SketchAgreement
import Mathlib.NumberTheory.LucasLehmer

namespace Btx.Matmul.V4

open Util Int8Field List Option

/-- The loop `acc = FqAdd(acc, FqMul(f[k], g[k]))`, from 0. -/
def dotFq (n : ℕ) (f g : ℕ → Fq) : Fq :=
  (List.range n).foldl (fun acc k => fqAdd acc (fqMul (f k) (g k))) 0

/-- The left side of a round. -/
def freivaldsLhs (sketch : List Fq) (m : ℕ) (x y : List Fq) : Fq :=
  dotFq m (fun a => x.getD a 0) fun a => dotFq m (fun c => cell sketch m a c) fun c => y.getD c 0

/-- `utx`: multiples of rows of `U`, those by 0 left out. -/
def transposeTimes (Uq : List Fq) (n m : ℕ) (x : List Fq) : List Fq :=
  (List.range m).foldl (fun utx a =>
    if x.getD a 0 = 0 then utx
    else List.zipWith (fun t u => fqAdd t (fqMul u (x.getD a 0))) utx
      ((List.range n).map (cell Uq n a)))
    (List.replicate n 0)

/-- The right side of a round. -/
def freivaldsRhs (A B : List ℤ) (Uq Vq : List Fq) (n m : ℕ) (x y : List Fq) : Fq :=
  let vy := (List.range n).map fun j => dotFq m (fun c => cell Vq m j c) fun c => y.getD c 0
  let Bvy := (List.range n).map fun i =>
    dotFq n (fun k => fqFromSigned (cell B n i k)) fun k => vy.getD k 0
  let ABvy := (List.range n).map fun i =>
    dotFq n (fun k => fqFromSigned (cell A n i k)) fun k => Bvy.getD k 0
  let utx := transposeTimes Uq n m x
  dotFq n (fun i => utx.getD i 0) fun i => ABvy.getD i 0

/-- One round: the two sides agree. -/
def freivaldsRound (A B U V : List ℤ) (sketch : List Fq) (n m : ℕ) (x y : List Fq) : Bool :=
  freivaldsLhs sketch m x y = freivaldsRhs A B (liftS8ToFq U) (liftS8ToFq V) n m x y

section Challenges

variable (sha256 : List UInt8 → List UInt8) (expandFqStream : List UInt8 → ℕ → Fq)

/-- `DeriveChallengeSeed`. -/
def deriveChallengeSeed (sigma payloadHash : List UInt8) (round : ℕ) : List UInt8 :=
  sha256 ("BTX_MATMUL_V4_FS".toUTF8.toList ++ sigma ++ payloadHash ++ Writer.littleEndian 4 round)

/-- `SketchFreivalds`: the first `m` elements of the stream are `x`, the next `m` are `y`. -/
def sketchFreivalds (A B U V : List ℤ) (sketch : List Fq) (sigma payload : List UInt8)
    (n m rounds : ℕ) : Bool :=
  if rounds = 0 then false
  else (List.range rounds).all fun round =>
    let seed := deriveChallengeSeed sha256 sigma (sha256 payload) round
    let xy := (List.range (2 * m)).map (expandFqStream seed)
    freivaldsRound A B U V sketch n m (xy.take m) (xy.drop m)

end Challenges

/-! ## What a round computes -/

variable {n m : ℕ} {U A B V M : List ℤ} {sketch x y : List Fq}

@[simp] theorem residue_dotFq (n : ℕ) (f g : ℕ → Fq) :
    residue (dotFq n f g) = ∑ k ∈ Finset.range n, residue (f k) * residue (g k) := by
  rw [dotFq, map_foldl_range (φ := residue) 0 fun acc k _ => by rw [residue_fqAdd, residue_fqMul],
    residue_zero, zero_add]

/-- A vector of residues. -/
def residues (n : ℕ) (x : List Fq) : Fin n → ZMod fieldPrime := fun i => residue (x.getD i 0)

/-- A claimed sketch, as a matrix of residues. -/
def sketchMatrix (sketch : List Fq) (m : ℕ) := entries m m fun a c => residue (cell sketch m a c)

/-- An integer matrix modulo `q`. -/
def lifted (M : List ℤ) (rows cols : ℕ) :=
  entries rows cols fun i j => ((cell M cols i j : ℤ) : ZMod fieldPrime)

theorem residues_map_range {f : ℕ → Fq} {g : Fin n → ZMod fieldPrime}
    (h : ∀ i : Fin n, residue (f i) = g i) : residues n ((List.range n).map f) = g :=
  funext fun i => by
    rw [residues, getD_eq_getElem?_getD, getElem?_map, getElem?_range i.isLt,
      map_some, getD_some, h]

theorem residue_dotFq_getD (n : ℕ) (f : ℕ → Fq) (x : List Fq) :
    residue (dotFq n f fun k => x.getD k 0) = (fun k : Fin n => residue (f k)) ⬝ᵥ residues n x := by
  rw [residue_dotFq, Finset.sum_range]
  rfl

theorem residue_freivaldsLhs (sketch : List Fq) (m : ℕ) (x y : List Fq) :
    residue (freivaldsLhs sketch m x y) =
      residues m x ⬝ᵥ (sketchMatrix sketch m).mulVec (residues m y) := by
  rw [freivaldsLhs, residue_dotFq, Finset.sum_range]
  simp only [residue_dotFq_getD]
  rfl

/-- An `int8_t` matrix. -/
def IsInt8 (M : List ℤ) : Prop := ∀ x ∈ M, -128 ≤ x ∧ x ≤ 127

theorem IsInt8.residue_fqFromSigned (h : IsInt8 M) (cols i j : ℕ) :
    residue (fqFromSigned (cell M cols i j)) = ((cell M cols i j : ℤ) : ZMod fieldPrime) := by
  refine Int8Field.residue_fqFromSigned (within_of_mem (by decide) (fun x hx => ?_) cols i j)
  have := h x hx
  rw [abs_le]
  omega

theorem IsInt8.residue_lift (h : IsInt8 M) (cols i j : ℕ) :
    residue (cell (liftS8ToFq M) cols i j) = ((cell M cols i j : ℤ) : ZMod fieldPrime) := by
  rw [liftS8ToFq, cell_map (by decide), h.residue_fqFromSigned]

theorem transposeTimes_eq (Uq : List Fq) (n m : ℕ) (x : List Fq) :
    transposeTimes Uq n m x = (List.range n).map fun i => (List.range m).foldl (fun t a =>
      if x.getD a 0 = 0 then t else fqAdd t (fqMul (cell Uq n a i) (x.getD a 0))) 0 := by
  induction m with
  | zero => simp [transposeTimes]
  | succ m ih =>
    unfold transposeTimes at ih ⊢
    simp only [range_succ, foldl_append, foldl_cons, foldl_nil, ih]
    split_ifs
    · rfl
    · rw [zipWith_map, zipWith_self]

theorem residues_transposeTimes (hU : IsInt8 U) (n m : ℕ) (x : List Fq) :
    residues n (transposeTimes (liftS8ToFq U) n m x) =
      Matrix.vecMul (residues m x) (lifted U m n) := by
  rw [transposeTimes_eq]
  refine residues_map_range fun i => ?_
  have hstep : ∀ t, ∀ a < m, residue (if x.getD a 0 = 0 then t
      else fqAdd t (fqMul (cell (liftS8ToFq U) n a i) (x.getD a 0))) =
        residue t + residue (x.getD a 0) * ((cell U n a i : ℤ) : ZMod fieldPrime) :=
    fun t a _ => by
      split_ifs with hx
      · rw [hx, residue_zero, zero_mul, add_zero]
      · rw [residue_fqAdd, residue_fqMul, hU.residue_lift, mul_comm]
  rw [map_foldl_range 0 hstep, residue_zero, zero_add, Finset.sum_range]
  rfl

theorem residues_mulVec {f : ℕ → ℕ → Fq} {rows cols : ℕ}
    (hf : ∀ i j, residue (f i j) = ((cell M cols i j : ℤ) : ZMod fieldPrime)) (x : List Fq) :
    residues rows ((List.range rows).map fun i => dotFq cols (f i) fun k => x.getD k 0) =
      (lifted M rows cols).mulVec (residues cols x) :=
  residues_map_range fun i => by
    rw [residue_dotFq_getD]
    simp only [hf]
    rfl

/-- The product that is sketched, modulo `q`. -/
def trueMatrix (U A B V : List ℤ) (n m : ℕ) :=
  lifted U m n * lifted A n n * (lifted B n n * lifted V n m)

/-- **The right side of a round.** -/
theorem residue_freivaldsRhs (hU : IsInt8 U) (hA : IsInt8 A) (hB : IsInt8 B) (hV : IsInt8 V)
    (n m : ℕ) (x y : List Fq) :
    residue (freivaldsRhs A B (liftS8ToFq U) (liftS8ToFq V) n m x y) =
      residues m x ⬝ᵥ (trueMatrix U A B V n m).mulVec (residues m y) := by
  rw [freivaldsRhs, residue_dotFq_getD]
  rw [residues_mulVec (fun i j => hA.residue_fqFromSigned n i j),
    residues_mulVec (fun i j => hB.residue_fqFromSigned n i j),
    residues_mulVec (fun i j => hV.residue_lift m i j)]
  rw [trueMatrix, ← Matrix.mulVec_mulVec, ← Matrix.mulVec_mulVec, ← Matrix.mulVec_mulVec,
    Matrix.dotProduct_mulVec (residues m x), ← residues_transposeTimes hU]
  rfl

theorem sketchMatrix_sketchOf (U A B V : List ℤ) (n m : ℕ) :
    sketchMatrix (sketchOf U A B V n m) m = trueMatrix U A B V n m := by
  rw [trueMatrix, lifted, lifted, lifted, lifted, entries_mul, entries_mul, entries_mul]
  refine entries_congr fun a ha c hc => ?_
  rw [sketchOf, canonical, cell_table ha hc, residue, Fin.val_ofNat, ZMod.natCast_mod,
    ZMod.natCast_val, ZMod.cast_id, sketchEntry]
  simp only [dotEntry]
  push_cast
  rfl

/-- **A round passes when the difference to the true sketch vanishes on the challenge.** -/
theorem freivaldsRound_iff (hU : IsInt8 U) (hA : IsInt8 A) (hB : IsInt8 B) (hV : IsInt8 V) :
    freivaldsRound A B U V sketch n m x y = true ↔ residues m x ⬝ᵥ
      (sketchMatrix sketch m - sketchMatrix (sketchOf U A B V n m) m).mulVec (residues m y) =
        0 := by
  rw [freivaldsRound, decide_eq_true_iff, ← residue_injective.eq_iff, residue_freivaldsLhs,
    residue_freivaldsRhs hU hA hB hV, sketchMatrix_sketchOf, Matrix.sub_mulVec, dotProduct_sub,
    sub_eq_zero]

/-- **The true sketch passes every round.** -/
theorem freivaldsRound_true (hU : IsInt8 U) (hA : IsInt8 A) (hB : IsInt8 B) (hV : IsInt8 V) :
    freivaldsRound A B U V (sketchOf U A B V n m) n m x y = true := by
  rw [freivaldsRound_iff hU hA hB hV, sub_self, Matrix.zero_mulVec, dotProduct_zero]

/-! ## Other sketches -/

theorem fieldPrime_prime : Nat.Prime fieldPrime :=
  lucas_lehmer_sufficiency 61 (by norm_num) (by norm_num)

instance factFieldPrime : Fact (Nat.Prime fieldPrime) := ⟨fieldPrime_prime⟩

theorem sketchMatrix_injective {sketch' : List Fq} (hs : sketch.length = m * m)
    (hs' : sketch'.length = m * m) (h : sketchMatrix sketch m = sketchMatrix sketch' m) :
    sketch = sketch' :=
  table_ext hs hs' fun a ha c hc =>
    residue_injective (congrFun (congrFun h ⟨a, ha⟩) ⟨c, hc⟩)

theorem residues_ofFn (x : Fin m → Fq) : residues m (List.ofFn x) = fun i => residue (x i) :=
  funext fun i => by
    rw [residues, getD_eq_getElem?_getD, List.getElem?_ofFn, dif_pos i.isLt, getD_some]

/-- **A sketch that is not the true one passes a round for few challenges.** -/
theorem card_accepting_le (hU : IsInt8 U) (hA : IsInt8 A) (hB : IsInt8 B) (hV : IsInt8 V)
    (hsize : sketch.length = m * m) (hne : sketch ≠ sketchOf U A B V n m) :
    (Finset.univ.filter fun xy : (Fin m → Fq) × (Fin m → Fq) =>
        freivaldsRound A B U V sketch n m (List.ofFn xy.1) (List.ofFn xy.2) = true).card ≤
      2 * fieldPrime ^ (2 * m - 1) := by
  set D := sketchMatrix sketch m - sketchMatrix (sketchOf U A B V n m) m with hD
  have hDne : D ≠ 0 := fun h => hne <|
    sketchMatrix_injective hsize (by simp [sketchOf, canonical]) (sub_eq_zero.1 h)
  have hzeros := card_bilinear_zeros_le hDne
  rw [Fintype.card_fin, ZMod.card] at hzeros
  -- The challenges that pass are, by their residues, zeros of the difference.
  let φ : (Fin m → Fq) × (Fin m → Fq) → (Fin m → ZMod fieldPrime) × (Fin m → ZMod fieldPrime) :=
    fun xy => (fun i => residue (xy.1 i), fun i => residue (xy.2 i))
  have hle : _ ≤ _ := Finset.card_le_card_of_injOn φ
    (s := Finset.univ.filter fun xy : (Fin m → Fq) × (Fin m → Fq) =>
      freivaldsRound A B U V sketch n m (List.ofFn xy.1) (List.ofFn xy.2) = true)
    (t := Finset.univ.filter fun p => p.1 ⬝ᵥ D.mulVec p.2 = 0)
    (fun xy hxy => by
      rw [Finset.mem_coe, Finset.mem_filter, freivaldsRound_iff hU hA hB hV, residues_ofFn,
        residues_ofFn] at hxy
      exact Finset.mem_coe.2 (Finset.mem_filter.2 ⟨Finset.mem_univ _, hxy.2⟩))
    (fun xy _ xy' _ h => by
      simp only [φ, Prod.mk.injEq, funext_iff, residue_injective.eq_iff] at h
      exact Prod.ext (funext h.1) (funext h.2))
  have hm : 0 < m := Nat.pos_of_ne_zero fun hm => hDne <| by
    subst hm
    exact Subsingleton.elim _ _
  refine hle.trans (Nat.le_of_mul_le_mul_right (hzeros.trans_eq ?_) fieldPrime_prime.pos)
  rw [Nat.mul_assoc, ← pow_succ, show 2 * m - 1 + 1 = m + m by omega]

/-- **`SketchFreivalds` is complete and sound.** `q` is prime. The true sketch passes every round,
so it is accepted whenever there is one. For every other sketch of `m * m` canonical words, one
round passes for at most `2 * q ^ (2 * m - 1)` of the `q ^ (2 * m)` pairs of challenge vectors. -/
theorem sketchFreivalds_complete_sound (hU : IsInt8 U) (hA : IsInt8 A) (hB : IsInt8 B)
    (hV : IsInt8 V) (n m : ℕ) :
    Nat.Prime fieldPrime ∧
    (∀ x y, freivaldsRound A B U V (sketchOf U A B V n m) n m x y = true) ∧
    (∀ sha256 expandFqStream sigma payload rounds,
      sketchFreivalds sha256 expandFqStream A B U V (sketchOf U A B V n m) sigma payload n m
        rounds = decide (rounds ≠ 0)) ∧
    Fintype.card ((Fin m → Fq) × (Fin m → Fq)) = fieldPrime ^ (2 * m) ∧
    ∀ sketch : List Fq, sketch.length = m * m → sketch ≠ sketchOf U A B V n m →
      (Finset.univ.filter fun xy : (Fin m → Fq) × (Fin m → Fq) =>
          freivaldsRound A B U V sketch n m (List.ofFn xy.1) (List.ofFn xy.2) = true).card ≤
        2 * fieldPrime ^ (2 * m - 1) := by
  refine ⟨fieldPrime_prime, fun x y => freivaldsRound_true hU hA hB hV, ?_, ?_,
    fun sketch => card_accepting_le hU hA hB hV⟩
  · intro sha256 expandFqStream sigma payload rounds
    unfold sketchFreivalds
    split_ifs with hrounds
    · simp [hrounds]
    · simp [hrounds, freivaldsRound_true hU hA hB hV]
  · rw [Fintype.card_prod, Fintype.card_fun, Fintype.card_fin, Fintype.card_fin, two_mul, pow_add]

/-- Operands of size 2. -/
theorem sketchFreivalds_two : Nat.Prime fieldPrime ∧
    (∀ x y, freivaldsRound [125, -3, 0, 7] [1, 2, -125, 4] [1, 0, -1, 2] [5, 0, 0, -9]
      (sketchOf [1, 0, -1, 2] [125, -3, 0, 7] [1, 2, -125, 4] [5, 0, 0, -9] 2 2) 2 2 x y = true) ∧
    (∀ sha256 expandFqStream sigma payload rounds,
      sketchFreivalds sha256 expandFqStream [125, -3, 0, 7] [1, 2, -125, 4] [1, 0, -1, 2]
        [5, 0, 0, -9] (sketchOf [1, 0, -1, 2] [125, -3, 0, 7] [1, 2, -125, 4] [5, 0, 0, -9] 2 2)
        sigma payload 2 2 rounds = decide (rounds ≠ 0)) ∧
    Fintype.card ((Fin 2 → Fq) × (Fin 2 → Fq)) = fieldPrime ^ (2 * 2) ∧
    ∀ sketch : List Fq, sketch.length = 2 * 2 →
      sketch ≠ sketchOf [1, 0, -1, 2] [125, -3, 0, 7] [1, 2, -125, 4] [5, 0, 0, -9] 2 2 →
      (Finset.univ.filter fun xy : (Fin 2 → Fq) × (Fin 2 → Fq) =>
          freivaldsRound [125, -3, 0, 7] [1, 2, -125, 4] [1, 0, -1, 2] [5, 0, 0, -9] sketch 2 2
            (List.ofFn xy.1) (List.ofFn xy.2) = true).card ≤ 2 * fieldPrime ^ (2 * 2 - 1) :=
  sketchFreivalds_complete_sound (U := [1, 0, -1, 2]) (A := [125, -3, 0, 7])
    (B := [1, 2, -125, 4]) (V := [5, 0, 0, -9]) (by unfold IsInt8; decide)
    (by unfold IsInt8; decide) (by unfold IsInt8; decide) (by unfold IsInt8; decide) 2 2

/-! ## The rounds together -/

/-- The challenges of a round, as the stream gives them. -/
def challenge (m : ℕ) (stream : ℕ → Fq) : (Fin m → Fq) × (Fin m → Fq) :=
  (fun i => stream i, fun i => stream (m + i))

theorem ofFn_challenge (m : ℕ) (stream : ℕ → Fq) :
    ((List.range (2 * m)).map stream).take m = List.ofFn (challenge m stream).1 ∧
      ((List.range (2 * m)).map stream).drop m = List.ofFn (challenge m stream).2 := by
  constructor
  · refine List.ext_getElem (by simp; omega) fun i _ _ => ?_
    simp [challenge]
  · refine List.ext_getElem (by simp; omega) fun i _ _ => ?_
    simp [challenge]

/-- **All rounds together.** For a wrong sketch few tables of challenges are bad, at most two parts
in `q` in each round; and whatever the hash and the stream are, it is accepted only if they give
one. -/
theorem sketchFreivalds_rounds_sound (hU : IsInt8 U) (hA : IsInt8 A) (hB : IsInt8 B)
    (hV : IsInt8 V) (hsize : sketch.length = m * m) (hne : sketch ≠ sketchOf U A B V n m)
    (rounds : ℕ) :
    ∃ bad : Finset (Fin rounds → (Fin m → Fq) × (Fin m → Fq)),
      bad.card ≤ (2 * fieldPrime ^ (2 * m - 1)) ^ rounds ∧
      ∀ sha256 expandFqStream sigma payload,
        sketchFreivalds sha256 expandFqStream A B U V sketch sigma payload n m rounds = true →
        (fun round : Fin rounds => challenge m (expandFqStream
          (deriveChallengeSeed sha256 sigma (sha256 payload) round))) ∈ bad := by
  refine ⟨Fintype.piFinset fun _ => Finset.univ.filter fun xy =>
    freivaldsRound A B U V sketch n m (List.ofFn xy.1) (List.ofFn xy.2) = true, ?_, ?_⟩
  · rw [Fintype.card_piFinset_const]
    exact Nat.pow_le_pow_left (card_accepting_le hU hA hB hV hsize hne) rounds
  · intro sha256 expandFqStream sigma payload h
    unfold sketchFreivalds at h
    split_ifs at h
    refine Fintype.mem_piFinset.2 fun round => Finset.mem_filter.2 ⟨Finset.mem_univ _, ?_⟩
    rw [← (ofFn_challenge _ _).1, ← (ofFn_challenge _ _).2]
    exact List.all_eq_true.1 h round (List.mem_range.2 round.isLt)

/-- A sketch of a product of 2 by 2 matrices that is wrong in one entry. -/
theorem sketchFreivalds_rounds_sound_two :
    ∃ bad : Finset (Fin 3 → (Fin 2 → Fq) × (Fin 2 → Fq)),
      bad.card ≤ (2 * fieldPrime ^ (2 * 2 - 1)) ^ 3 ∧
      ∀ sha256 expandFqStream sigma payload,
        sketchFreivalds sha256 expandFqStream [1, 2, 3, 4] [5, 6, 7, 8] [1, 0, 0, 1] [1, 0, 0, 1]
          [19, 22, 43, 51] sigma payload 2 2 3 = true →
        (fun round : Fin 3 => challenge 2 (expandFqStream
          (deriveChallengeSeed sha256 sigma (sha256 payload) round))) ∈ bad := by
  have hint8 : IsInt8 [1, 0, 0, 1] ∧ IsInt8 [1, 2, 3, 4] ∧ IsInt8 [5, 6, 7, 8] := by
    unfold IsInt8
    decide
  have hne : ([19, 22, 43, 51] : List Fq) ≠
      sketchOf [1, 0, 0, 1] [1, 2, 3, 4] [5, 6, 7, 8] [1, 0, 0, 1] 2 2 := by
    decide +kernel
  exact sketchFreivalds_rounds_sound hint8.1 hint8.2.1 hint8.2.2 hint8.1 rfl hne 3

end Btx.Matmul.V4
