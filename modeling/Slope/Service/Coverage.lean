import Slope.Lib.Window
import Slope.Service.Calibrator

/-!
# `Service.Coverage` — what the guard covers

The calibrator keeps its residuals in a ring. `Retains` says what the ring holds after any sequence of pushes:
the last `N` residuals, each clipped, with the oldest one under the cursor once the ring is full. The guard is
then an order statistic of a window of that sequence, plus the slack, and at least as many retained residuals
as its rank says are not above it.
-/

namespace Slope.Service.ResidualCalibrator

open Word

variable {N : Nat}

/-- The state after pushing the residuals in turn. -/
def pushAll (c : ResidualCalibrator N) (rs : List U64) : ResidualCalibrator N :=
  rs.foldl (fun c r => (c.push r).2) c

/-! ## The ring -/

/-- `c` has the configuration of `c₀` and its ring holds the last residuals of `rs`. -/
structure Retains (c₀ : ResidualCalibrator N) (rs : List U64) (c : ResidualCalibrator N) : Prop where
  numerator : c.coverageNumerator = c₀.coverageNumerator
  denominator : c.coverageDenominator = c₀.coverageDenominator
  slack : c.additiveSlack = c₀.additiveSlack
  maximum : c.maximumGuard = c₀.maximumGuard
  length : (c.length : Nat) = min rs.length N
  cursor : (c.cursor : Nat) = rs.length % N
  window : c.retained.rotate c.cursor = lastN N (rs.map (umin · c₀.maximumGuard))

section

variable {c₀ c : ResidualCalibrator N} {rs : List U64}

theorem length_retained (c : ResidualCalibrator N) : c.retained.length = c.length := by
  rw [retained, List.length_take, Vector.length_toList]
  exact Nat.min_eq_left (Nat.le_of_lt_succ c.length.isLt)

theorem retained_record (c : ResidualCalibrator N) (r : U64) :
    (c.record r).retained
      = (c.residuals.toList.set c.cursor (umin r c.maximumGuard)).take (min ((c.length : Nat) + 1) N) := by
  rw [← Vector.toList_set c.cursor.isLt]
  rfl

/-- A push into a ring that is not full appends. -/
theorem Retains.record_of_lt (h : Retains c₀ rs c) (hlt : rs.length < N) (r : U64) :
    Retains c₀ (rs ++ [r]) (c.record r) := by
  have hlen : (c.length : Nat) = rs.length := by rw [h.length]; omega
  have hcur : (c.cursor : Nat) = rs.length := by rw [h.cursor, Nat.mod_eq_of_lt hlt]
  have hall : c.retained = rs.map (umin · c₀.maximumGuard) := by
    have hwindow := h.window
    rwa [hcur, ← hlen, ← length_retained, List.rotate_length,
      lastN_of_length_le (by rw [List.length_map]; exact hlt.le)] at hwindow
  have hnew : (c.record r).retained = (rs ++ [r]).map (umin · c₀.maximumGuard) := by
    have hroom : rs.length < c.residuals.toList.length := by rwa [Vector.length_toList]
    rw [retained_record, hcur, hlen, Nat.min_eq_left hlt, List.take_add_one, List.take_set_of_le (Nat.le_refl _),
      List.getElem?_set_self hroom, List.map_append, ← hall, h.maximum, retained, hlen]
    rfl
  refine ⟨h.numerator, h.denominator, h.slack, h.maximum, ?_, ?_, ?_⟩
  · show min ((c.length : Nat) + 1) N = _
    rw [hlen, List.length_append, List.length_singleton]
  · show ((c.cursor : Nat) + 1) % N = _
    rw [hcur, List.length_append, List.length_singleton]
  · have hshort : ((rs ++ [r]).map (umin · c₀.maximumGuard)).length ≤ N := by
      rw [List.length_map, List.length_append, List.length_singleton]
      exact hlt
    have hcursor : ((c.record r).cursor : Nat) = (rs.length + 1) % N := by
      show ((c.cursor : Nat) + 1) % N = _
      rw [hcur]
    rw [hnew, lastN_of_length_le hshort, hcursor]
    -- the cursor is at the end, or back at the start when the ring has just become full
    rcases Nat.lt_or_eq_of_le (Nat.succ_le_of_lt hlt) with hroom | hfull
    · rw [Nat.mod_eq_of_lt hroom]
      have hrot := List.rotate_length ((rs ++ [r]).map (umin · c₀.maximumGuard))
      rwa [List.length_map, List.length_append, List.length_singleton] at hrot
    · have hstart : (rs.length + 1) % N = 0 := by rw [show rs.length + 1 = N from hfull, Nat.mod_self]
      rw [hstart, List.rotate_zero]

/-- A push into a full ring replaces the oldest residual. -/
theorem Retains.record_of_le (h : Retains c₀ rs c) (hpos : 0 < N) (hle : N ≤ rs.length) (r : U64) :
    Retains c₀ (rs ++ [r]) (c.record r) := by
  have hlen : (c.length : Nat) = N := by rw [h.length]; omega
  have hwhole : c.retained = c.residuals.toList := by
    rw [retained, hlen, List.take_of_length_le (by rw [Vector.length_toList])]
  have hnew : (c.record r).retained = c.retained.set c.cursor (umin r c₀.maximumGuard) := by
    rw [retained_record, hlen, Nat.min_eq_right (Nat.le_succ N),
      List.take_of_length_le (by rw [List.length_set, Vector.length_toList]), hwhole, h.maximum]
  have hsize : c.retained.length = N := by rw [length_retained, hlen]
  refine ⟨h.numerator, h.denominator, h.slack, h.maximum, ?_, ?_, ?_⟩
  · show min ((c.length : Nat) + 1) N = _
    rw [hlen, List.length_append, List.length_singleton]
    omega
  · show ((c.cursor : Nat) + 1) % N = _
    rw [h.cursor, List.length_append, List.length_singleton, Nat.mod_add_mod]
  · have hcursor : ((c.record r).cursor : Nat) = ((c.cursor : Nat) + 1) % N := rfl
    have hmod := List.rotate_mod (c.retained.set c.cursor (umin r c₀.maximumGuard)) ((c.cursor : Nat) + 1)
    rw [List.length_set, hsize] at hmod
    rw [hnew, hcursor, hmod, set_rotate (by rw [hsize]; exact c.cursor.isLt), h.window, List.map_append,
      List.map_singleton, lastN_snoc hpos (by rwa [List.length_map])]

theorem Retains.record (h : Retains c₀ rs c) (r : U64) : Retains c₀ (rs ++ [r]) (c.record r) := by
  rcases Nat.lt_or_ge rs.length N with hlt | hle
  · exact h.record_of_lt hlt r
  · exact h.record_of_le (Nat.lt_of_le_of_lt (Nat.zero_le _) c.cursor.isLt) hle r

theorem retains_pushAll (hstart : Retains c₀ [] c₀) (rs : List U64) : Retains c₀ rs (c₀.pushAll rs) := by
  induction rs using List.reverseRecOn with
  | nil => exact hstart
  | append_singleton rs r ih =>
      have hstep : c₀.pushAll (rs ++ [r]) = (c₀.pushAll rs).record r := by
        rw [pushAll, List.foldl_append]
        rfl
      rw [hstep]
      exact ih.record r

/-- **Inversion of `new`**, as far as the guard is concerned. -/
theorem new_ok {num den : U8} {slack maximum secret : U64} (h : new N num den slack maximum secret = .ok c₀) :
    0 < num.toNat ∧ 0 < den.toNat ∧ c₀.coverageNumerator = num ∧ c₀.coverageDenominator = den ∧
      c₀.additiveSlack = slack ∧ c₀.maximumGuard = maximum ∧ Retains c₀ [] c₀ := by
  unfold new at h
  split at h
  · cases h
  split at h
  · cases h
  next hcoverage =>
  obtain rfl := Except.ok.inj h
  simp only [not_or] at hcoverage
  refine ⟨ne_zero_iff.mp hcoverage.1, ne_zero_iff.mp hcoverage.2.1, rfl, rfl, rfl, rfl,
    rfl, rfl, rfl, rfl, ?_, (Nat.zero_mod N).symm, ?_⟩
  · exact (Nat.zero_min N).symm
  · show List.rotate (List.take 0 _) 0 = lastN N []
    rw [List.take_zero, List.rotate_nil, lastN_of_length_le (Nat.zero_le N)]

/-- The ring, read without its order. -/
theorem Retains.perm (h : Retains c₀ rs c) : c.retained.Perm ((lastN N rs).map (umin · c₀.maximumGuard)) := by
  rw [map_lastN, ← h.window]
  exact (List.rotate_perm c.retained c.cursor).symm

theorem Retains.le_maximum (h : Retains c₀ rs c) : ∀ r ∈ c.retained, r ≤ c₀.maximumGuard := by
  intro r hr
  obtain ⟨r₀, -, rfl⟩ := List.mem_map.mp (h.perm.mem_iff.mp hr)
  rw [BitVec.le_def, toNat_umin]
  exact Nat.min_le_right ..

/-! ## The guard -/

/-- Sorting words sorts the integers they stand for. -/
theorem map_toNat_insertionSort (l : List U64) :
    (l.insertionSort (· ≤ ·)).map BitVec.toNat = (l.map BitVec.toNat).insertionSort (· ≤ ·) :=
  List.map_insertionSort (· ≤ ·) (· ≤ ·) BitVec.toNat l (fun _ _ _ _ => Iff.rfl)

/-- The entry that `guard` reads is the order statistic of its rank. -/
theorem isKthSmallest_rank {c : ResidualCalibrator N} (hpos : 0 < c.rank) :
    IsKthSmallest c.rank (c.retained.map BitVec.toNat)
      ((c.retained.insertionSort (· ≤ ·)).getD (c.rank - 1) 0).toNat := by
  have hle : c.rank ≤ (c.length : Nat) := Nat.min_le_left ..
  have hlt : c.rank - 1 < (c.retained.insertionSort (· ≤ ·)).length := by
    rw [List.length_insertionSort, length_retained]
    omega
  have hlt' : c.rank - 1 < ((c.retained.map BitVec.toNat).insertionSort (· ≤ ·)).length := by
    rw [← map_toNat_insertionSort, List.length_map]
    exact hlt
  have hkth := isKthSmallest_insertionSort (c.retained.map BitVec.toNat) hlt'
  have hread : ((c.retained.map BitVec.toNat).insertionSort (· ≤ ·))[c.rank - 1]
      = ((c.retained.insertionSort (· ≤ ·)).getD (c.rank - 1) 0).toNat := by
    simp only [← map_toNat_insertionSort, List.getElem_map]
    rw [List.getD_eq_getElem?_getD, List.getElem?_eq_getElem hlt, Option.getD_some]
  rwa [hread, Nat.sub_add_cancel hpos] at hkth

/-- The last two steps of `guard`, over the integers. -/
theorem clipped_sum (x slack maximum : U64) :
    (okOr (checkedAdd x slack) CalibrationFault.arithmeticOverflow).map (umin · maximum)
      = if slack.toNat + x.toNat < 2 ^ 64 then .ok (BitVec.ofNat 64 (min maximum.toNat (slack.toNat + x.toNat)))
        else .error .arithmeticOverflow := by
  by_cases hfit : slack.toNat + x.toNat < 2 ^ 64
  · have hsum : (x + slack).toNat = slack.toNat + x.toNat := by
      rw [BitVec.toNat_add, Nat.add_comm, Nat.mod_eq_of_lt hfit]
    rw [if_pos hfit, checkedAdd_eq_some.mpr (hsum.trans (Nat.add_comm ..))]
    show Except.ok (umin (x + slack) maximum) = _
    congr 1
    apply BitVec.eq_of_toNat_eq
    rw [toNat_umin, hsum, BitVec.toNat_ofNat, Nat.min_comm]
    exact (Nat.mod_eq_of_lt (Nat.lt_of_le_of_lt (Nat.min_le_right ..) hfit)).symm
  · rw [if_neg hfit, checkedAdd_eq_none.mpr (by omega)]
    rfl

theorem rank_pos (hlen : 0 < (c.length : Nat)) (hnum : 0 < c.coverageNumerator.toNat)
    (hden : 0 < c.coverageDenominator.toNat) : 0 < c.rank := by
  have hproduct : 0 < ((c.length : Nat) + 1) * c.coverageNumerator.toNat := Nat.mul_pos (Nat.succ_pos _) hnum
  have hceil : 0 < ((c.length : Nat) + 1) * c.coverageNumerator.toNat ⌈/⌉ c.coverageDenominator.toNat := by
    rw [Nat.ceilDiv_eq_add_pred_div]
    exact Nat.div_pos (by omega) hden
  rw [rank]
  omega

theorem rankFits_of_capacity (hN : (N + 2) * 255 < 2 ^ 64) (c : ResidualCalibrator N) : c.RankFits := by
  have hle : (c.length : Nat) ≤ N := Nat.le_of_lt_succ c.length.isLt
  have hden := c.coverageDenominator.isLt
  have hproduct : ((c.length : Nat) + 1) * c.coverageNumerator.toNat ≤ (N + 1) * 255 :=
    Nat.mul_le_mul (by omega) (Nat.le_of_lt_succ c.coverageNumerator.isLt)
  rw [RankFits]
  omega

/-- A guard that is not below the order statistic, or is the maximum, covers `rank` of the residuals. -/
theorem rank_le_countP (h : Retains c₀ rs c) {v : Nat} (hv : IsKthSmallest c.rank (c.retained.map BitVec.toNat) v)
    {g : U64} (hg : v ≤ g.toNat ∨ c₀.maximumGuard ≤ g) : c.rank ≤ c.retained.countP (· ≤ g) := by
  have hupto := hv.upto
  rw [List.countP_map] at hupto
  refine hupto.trans (List.countP_mono_left ?_)
  intro r hr hle
  rw [decide_eq_true_eq]
  rcases hg with hg | hg
  · have hrv : r.toNat ≤ v := by simpa using hle
    exact BitVec.le_def.mpr (hrv.trans hg)
  · exact BitVec.le_trans (h.le_maximum r hr) hg

/-! ## The guard after one more residual -/

/-- The residuals that the next push keeps: all of them until the ring is full, then all but the oldest. -/
def kept (c : ResidualCalibrator N) : List U64 := c.retained.eraseIdx c.cursor

theorem Retains.length_kept (h : Retains c₀ rs c) (r : U64) : c.kept.length + 1 = ((c.record r).length : Nat) := by
  have hcursor := c.cursor.isLt
  show c.kept.length + 1 = min ((c.length : Nat) + 1) N
  rw [kept, List.length_eraseIdx, length_retained, h.length, h.cursor]
  rcases Nat.lt_or_ge rs.length N with hlt | hle
  · rw [Nat.mod_eq_of_lt hlt]
    split <;> omega
  · have hmod := Nat.mod_lt rs.length (Nat.lt_of_le_of_lt (Nat.zero_le _) hcursor)
    split <;> omega

/-- What a push leaves is what it keeps, and the new residual clipped. -/
theorem Retains.perm_record (h : Retains c₀ rs c) (r : U64) :
    (c.record r).retained.Perm (umin r c.maximumGuard :: c.kept) := by
  have hcursor := c.cursor.isLt
  rw [retained_record, kept, retained]
  rcases Nat.lt_or_ge rs.length N with hlt | hle
  · -- not full: the cursor is one past the last residual
    have hlen : (c.length : Nat) = c.cursor := by rw [h.length, h.cursor, Nat.mod_eq_of_lt hlt]; omega
    rw [hlen, Nat.min_eq_left hcursor, List.take_add_one, List.take_set_of_le (Nat.le_refl _),
      List.getElem?_set_self (by rwa [Vector.length_toList]),
      List.eraseIdx_of_length_le (by rw [List.length_take]; exact Nat.min_le_left ..)]
    exact List.perm_append_singleton _ _
  · have hlen : (c.length : Nat) = N := by rw [h.length]; omega
    rw [hlen, Nat.min_eq_right (Nat.le_succ N),
      List.take_of_length_le (by rw [List.length_set, Vector.length_toList]),
      List.take_of_length_le (by rw [Vector.length_toList]), List.eraseIdx_eq_take_drop_succ,
      List.set_eq_take_append_cons_drop, if_pos (by rwa [Vector.length_toList])]
    exact List.perm_middle

/-- The rank cannot be computed: neither can the guard. -/
theorem guard_of_not_rankFits {c : ResidualCalibrator N} (hlen : (c.length : Nat) ≠ 0) (hfit : ¬ c.RankFits) :
    c.guard = .error .arithmeticOverflow := by
  have hne : c.length ≠ 0 := fun h => hlen (congrArg Fin.val h)
  have hround : usize (((c.length : Nat) + 1) * c.coverageNumerator.toNat + (c.coverageDenominator.toNat - 1))
      = none := if_neg hfit
  rw [guard, if_neg hne]
  dsimp only
  -- the two steps before the rounding may fail already, with the same fault
  by_cases hcount : (c.length : Nat) + 1 < 2 ^ 64
  · rw [show usize ((c.length : Nat) + 1) = some _ from if_pos hcount]
    dsimp only [okOr, bind, Except.bind]
    by_cases hproduct : ((c.length : Nat) + 1) * c.coverageNumerator.toNat < 2 ^ 64
    · rw [show usize (((c.length : Nat) + 1) * c.coverageNumerator.toNat) = some _ from if_pos hproduct]
      dsimp only
      rw [hround]
    · rw [show usize (((c.length : Nat) + 1) * c.coverageNumerator.toNat) = none from if_neg hproduct]
  · rw [show usize ((c.length : Nat) + 1) = none from if_neg hcount]
    rfl

/-- The guard, once `r` is recorded: its rank can be computed, and the residual of that rank leaves room for
    the slack. Only a ceiling that is the largest word lets it fall short of that. -/
theorem Retains.guard_record_ok_iff (h : Retains c₀ rs c) (hnum : 0 < c₀.coverageNumerator.toNat)
    (hden : 0 < c₀.coverageDenominator.toNat) (r : U64) :
    (∃ g, (c.record r).guard = .ok g) ↔
      (c.record r).RankFits ∧ (c.record r).rank ≤
        (umin r c.maximumGuard :: c.kept).countP (·.toNat + c₀.additiveSlack.toNat < 2 ^ 64) := by
  have h' := h.record r
  have hlen : ((c.record r).length : Nat) ≠ 0 := by rw [← h.length_kept r]; omega
  rw [← h'.numerator] at hnum
  rw [← h'.denominator] at hden
  by_cases hfit : (c.record r).RankFits
  · have hkth := isKthSmallest_rank (rank_pos (Nat.pos_of_ne_zero hlen) hnum hden)
    have hguard := guard_eq hlen hnum hden hfit
    rw [clipped_sum, h'.slack, h'.maximum] at hguard
    have hslack := c₀.additiveSlack.isLt
    -- the residuals short of the bound, counted on the ring or on what the push keeps
    have hcount : ((c.record r).retained.map BitVec.toNat).countP (· < 2 ^ 64 - c₀.additiveSlack.toNat)
        = (umin r c.maximumGuard :: c.kept).countP (·.toNat + c₀.additiveSlack.toNat < 2 ^ 64) := by
      rw [List.countP_map, ← (h.perm_record r).countP_eq]
      refine List.countP_congr ?_
      intro x _
      simp only [Function.comp, decide_eq_true_eq]
      omega
    have hroom := hkth.lt_iff (2 ^ 64 - c₀.additiveSlack.toNat)
    rw [hcount] at hroom
    rw [hguard, ← hroom]
    constructor
    · rintro ⟨g, hg⟩
      split at hg
      · exact ⟨hfit, by omega⟩
      · cases hg
    · rintro ⟨-, hlt⟩
      rw [if_pos (by omega)]
      exact ⟨_, rfl⟩
  · rw [guard_of_not_rankFits hlen hfit]
    constructor
    · rintro ⟨g, hg⟩
      cases hg
    · rintro ⟨hfit', -⟩
      exact absurd hfit' hfit

/-- A push of `r` finds nothing to change: the only slot holds `r`, clipped, and the count is saturated. -/
def Idle (c : ResidualCalibrator N) (r : U64) : Prop :=
  N = 1 ∧ c.samples = BitVec.allOnes 64 ∧ c.retained = [umin r c.maximumGuard]

theorem verifyRoot_sealRoot (c : ResidualCalibrator N) : c.sealRoot.verifyRoot = true := beq_self_eq_true _

theorem idle_of_record_eq {r : U64} (h : c.record r = c) : c.Idle r := by
  have hlt := c.cursor.isLt
  have hcursor : ((c.cursor : Nat) + 1) % N = c.cursor := congrArg (fun c => (c.cursor : Nat)) h
  have hlen : min ((c.length : Nat) + 1) N = c.length := congrArg (fun c => (c.length : Nat)) h
  have hsamples : saturatingAdd c.samples 1 = c.samples := congrArg samples h
  have hretained : (c.record r).retained = c.retained := congrArg retained h
  -- the cursor comes back to its place in one step only in a ring of one slot
  have hone : N = 1 := by
    rcases Nat.lt_or_ge ((c.cursor : Nat) + 1) N with hin | hout
    · rw [Nat.mod_eq_of_lt hin] at hcursor
      omega
    · have hN : (c.cursor : Nat) + 1 = N := by omega
      rw [hN, Nat.mod_self] at hcursor
      omega
  refine ⟨hone, ?_, ?_⟩
  · have hsum := congrArg BitVec.toNat hsamples
    rw [toNat_saturatingAdd, show (1 : U64).toNat = 1 from rfl] at hsum
    apply BitVec.eq_of_toNat_eq
    rw [BitVec.toNat_allOnes]
    have hlt := c.samples.isLt
    omega
  · obtain ⟨y, hy⟩ := List.length_eq_one_iff.mp (c.residuals.length_toList.trans hone)
    rw [← hretained, retained_record, hy, show (c.cursor : Nat) = 0 by omega,
      show min ((c.length : Nat) + 1) N = 1 by omega]
    rfl

theorem Idle.record_eq {r : U64} (h : c.Idle r) (hroot : c.verifyRoot = true) : c.record r = c := by
  obtain ⟨rfl, hsamples, hretained⟩ := h
  have hlen : (c.length : Nat) = 1 := by rw [← length_retained, hretained, List.length_singleton]
  have hslots : c.residuals.toList = [umin r c.maximumGuard] := by
    rw [← hretained, retained, hlen, List.take_of_length_le (by rw [Vector.length_toList])]
  have hresiduals : c.residuals.set c.cursor (umin r c.maximumGuard) = c.residuals := by
    apply Vector.toList_inj.mp
    rw [Vector.toList_set c.cursor.isLt, hslots, show (c.cursor : Nat) = 0 by omega]
    rfl
  have hcursor : (⟨((c.cursor : Nat) + 1) % 1, Nat.mod_lt _ Nat.one_pos⟩ : Fin 1) = c.cursor :=
    Subsingleton.elim ..
  have hcount : (⟨min ((c.length : Nat) + 1) 1, Nat.lt_succ_of_le (Nat.min_le_right ..)⟩ : Fin 2) = c.length := by
    apply Fin.ext
    show min ((c.length : Nat) + 1) 1 = c.length
    omega
  have hsaturated : saturatingAdd c.samples 1 = c.samples := by
    rw [hsamples]
    rfl
  have hseal : c.sealRoot = c := by
    rw [sealRoot, ← beq_iff_eq.mp hroot]
  rw [record, hresiduals, hsaturated]
  conv_rhs => rw [← hseal]
  simp only [hcursor, hcount]

/-- **Coverage.** After any sequence of pushes the ring holds the last residuals, clipped. With none of them
    the guard is the slack. With some of them it is the order statistic of the coverage rank plus the slack,
    clipped, and it fails exactly when that sum does not fit in a word; and at least as many of the retained
    residuals as the rank says are not above it. -/
theorem guard_covers {num den : U8} {slack maximum secret : U64} (hN : (N + 2) * 255 < 2 ^ 64)
    (h₀ : new N num den slack maximum secret = .ok c₀) (rs : List U64) :
    (c₀.pushAll rs).retained.Perm ((lastN N rs).map (umin · maximum)) ∧
    ((c₀.pushAll rs).retained = [] → (c₀.pushAll rs).guard = .ok (umin slack maximum)) ∧
    ∀ m k, m = (c₀.pushAll rs).retained.length → 1 ≤ m → k = min m ((m + 1) * num.toNat ⌈/⌉ den.toNat) →
      (∃ v, IsKthSmallest k ((c₀.pushAll rs).retained.map BitVec.toNat) v) ∧
      ∀ v, IsKthSmallest k ((c₀.pushAll rs).retained.map BitVec.toNat) v →
        (c₀.pushAll rs).guard = (if slack.toNat + v < 2 ^ 64 then
            .ok (BitVec.ofNat 64 (min maximum.toNat (slack.toNat + v)))
          else .error .arithmeticOverflow) ∧
        ∀ g, (c₀.pushAll rs).guard = .ok g → k ≤ (c₀.pushAll rs).retained.countP (· ≤ g) := by
  obtain ⟨hnum, hden, rfl, rfl, rfl, rfl, hstart⟩ := new_ok h₀
  have h := retains_pushAll hstart rs
  generalize c₀.pushAll rs = c at h
  refine ⟨h.perm, ?_, ?_⟩
  · intro hnone
    have hzero : (c.length : Nat) = 0 := by rw [← length_retained, hnone, List.length_nil]
    rw [guard_of_length_eq_zero hzero, h.slack, h.maximum]
  · rintro m k rfl hm rfl
    have hlen : 0 < (c.length : Nat) := by rwa [length_retained] at hm
    have hrank : min c.retained.length ((c.retained.length + 1) * c₀.coverageNumerator.toNat
        ⌈/⌉ c₀.coverageDenominator.toNat) = c.rank := by
      rw [rank, length_retained, h.numerator, h.denominator]
    rw [← h.numerator] at hnum
    rw [← h.denominator] at hden
    have hread := isKthSmallest_rank (rank_pos hlen hnum hden)
    have hguard := guard_eq (Nat.pos_iff_ne_zero.mp hlen) hnum hden (rankFits_of_capacity hN c)
    rw [clipped_sum, h.slack, h.maximum] at hguard
    rw [hrank]
    refine ⟨⟨_, hread⟩, ?_⟩
    intro v hv
    obtain rfl := hread.unique hv
    refine ⟨hguard, ?_⟩
    intro g hg
    rw [hguard] at hg
    split at hg
    · next hfit =>
      obtain rfl := Except.ok.inj hg
      apply rank_le_countP h hread
      have hlt := c₀.maximumGuard.isLt
      rw [BitVec.le_def, BitVec.toNat_ofNat, Nat.mod_eq_of_lt (by omega)]
      omega
    · cases hg

end

def eightSlots : ResidualCalibrator 8 := eightEmpty 1000 7

def twelveResiduals : List U64 := [9, 9, 9, 9, 1, 2, 3, 4, 5, 6, 7, 2000]

/-- Eight slots, four pushes past the first round: the retained residuals are the last eight of twelve, the
    largest of them clipped, and the guard covers all eight. -/
theorem guard_covers_sample :
    ∃ c₀, new 8 15 16 1 1000 7 = .ok c₀ ∧
      (c₀.pushAll twelveResiduals).retained.Perm [1, 2, 3, 4, 5, 6, 7, 1000] ∧
      (c₀.pushAll twelveResiduals).guard = .ok 1000 ∧
      8 ≤ (c₀.pushAll twelveResiduals).retained.countP (· ≤ 1000) := by
  have h₀ : new 8 15 16 1 1000 7 = .ok eightSlots := rfl
  obtain ⟨hperm, -, hcovers⟩ := guard_covers (by decide) h₀ twelveResiduals
  obtain ⟨⟨v, hv⟩, hguard⟩ := hcovers 8 8 (by decide +kernel) (by decide) (by decide)
  exact ⟨eightSlots, h₀, hperm, by decide +kernel, (hguard v hv).2 1000 (by decide +kernel)⟩

end Slope.Service.ResidualCalibrator
