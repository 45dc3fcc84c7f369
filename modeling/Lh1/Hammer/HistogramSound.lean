/-
  What the buckets of `generate_histogram` hold (cmd_mirror.c).

  A bucket index is a 64-bit product divided by the length of the range, and the boundaries of
  the buckets are another such product divided by the number of buckets. For ranges of 2^20 up to
  2^44 transaction ids neither product wraps where it matters, and the two divisions fit: a
  transaction id lies between the boundaries of its bucket. The one product that does wrap, for the
  last id of a range of 2^44, gives bucket 0.

  * `bucket_place`: where a transaction id lies.
  * `slices_total`: the slices hold all bytes that were counted.
  * `histogram_sound`: both, with the assertions of `generate_histogram`.
-/
import Lh1.Hammer.Histogram

namespace Lh1.Hammer.Mirror

/-! ## Where a transaction id lies -/

/-- Where the next bucket starts; the last bucket ends with the range. -/
def bucketEnd (tidBeg tidEnd i : Nat) : Nat :=
  if i + 1 = histCount then tidEnd else boundary tidBeg tidEnd (i + 1)

section

variable {tidBeg tidEnd : Nat}

/-- A boundary whose product does not wrap. -/
theorem boundary_of_lt (hlt : tidBeg < tidEnd) (hend : tidEnd < 2 ^ 64) {i : Nat}
    (hi : i ≤ histCount) (hmul : i * (tidEnd - tidBeg) < 2 ^ 64) :
    boundary tidBeg tidEnd i = tidBeg + i * (tidEnd - tidBeg) / histCount := by
  rw [boundary_eq hlt hend hi, Nat.mod_eq_of_lt hmul]

/-- A transaction id whose product does not wrap. -/
theorem bucket_place_of_lt (hlt : tidBeg < tidEnd) (hend : tidEnd < 2 ^ 64)
    (hmin : histCount ≤ tidEnd - tidBeg) (hmax : tidEnd - tidBeg ≤ 2 ^ 44) {tid : Nat}
    (h : tidBeg ≤ tid ∧ tid ≤ tidEnd) (hmul : (tid - tidBeg) * histCount < 2 ^ 64) :
    (bucket tidBeg tidEnd tid = 0 ∨ boundary tidBeg tidEnd (bucket tidBeg tidEnd tid) < tid) ∧
      tid ≤ bucketEnd tidBeg tidEnd (bucket tidBeg tidEnd tid) := by
  obtain ⟨d, rfl⟩ : ∃ d, tid = tidBeg + d := ⟨tid - tidBeg, by omega⟩
  obtain ⟨r, hr⟩ : ∃ r, tidEnd - tidBeg = r := ⟨_, rfl⟩
  obtain ⟨q, hq⟩ : ∃ q, d * histCount / r = q := ⟨_, rfl⟩
  rw [Nat.add_sub_cancel_left] at hmul
  rw [hr] at hmin hmax
  have hpos : 0 < r := by omega
  -- the index is the whole part of `d * histCount / r`
  have hlow : q * r ≤ d * histCount := hq ▸ Nat.div_mul_le_self _ _
  have hhigh : d * histCount < (q + 1) * r := by
    rw [← hq, Nat.add_mul, Nat.one_mul]
    exact Nat.lt_div_mul_add hpos
  have hqN : q ≤ histCount := by
    rw [← hq]
    refine Nat.div_le_of_le_mul ?_
    rw [Nat.mul_comm r]
    exact (Nat.mul_comm d _).le.trans (Nat.mul_le_mul_left _ (by omega))
  have hbound : ∀ i ≤ histCount, i * r < 2 ^ 64 →
      boundary tidBeg tidEnd i = tidBeg + i * r / histCount := by
    intro i hi hir
    rw [boundary_of_lt hlt hend hi (hr ▸ hir), hr]
  have hbq := hbound q hqN (hlow.trans_lt hmul)
  have hb : bucket tidBeg tidEnd (tidBeg + d)
      = if tidBeg + d = boundary tidBeg tidEnd q ∧ q ≠ 0 then q - 1 else q := by
    rw [bucket, Nat.add_sub_cancel_left, hr, Nat.mod_eq_of_lt hmul, hq]
  by_cases hon : tidBeg + d = boundary tidBeg tidEnd q ∧ q ≠ 0
  · -- on the boundary: the bucket before
    rw [hb, if_pos hon]
    obtain ⟨p, rfl⟩ : ∃ p, q = p + 1 := ⟨q - 1, by omega⟩
    rw [Nat.add_sub_cancel]
    have hd : tidBeg + d = tidBeg + (p + 1) * r / histCount := hon.1.trans hbq
    refine ⟨.inr ?_, ?_⟩
    · rw [hbound p (by omega) (by rw [Nat.add_mul] at hlow; omega), hd]
      have : p * r / histCount < (p + 1) * r / histCount := by
        rw [Nat.add_mul, Nat.one_mul]
        exact (Nat.lt_succ_self _).trans_le
          ((Nat.add_div_right _ (by decide)).symm.le.trans (Nat.div_le_div_right (by omega)))
      omega
    · rw [bucketEnd]
      split
      · exact h.2
      · exact hon.1.le
  · rw [hb, if_neg hon]
    refine ⟨?_, ?_⟩
    · rcases Nat.eq_zero_or_pos q with h0 | h0
      · exact .inl h0
      · refine .inr (lt_of_le_of_ne ?_ fun heq => hon ⟨heq.symm, h0.ne'⟩)
        rw [hbq]
        have : q * r / histCount ≤ d := Nat.div_le_of_le_mul (by rwa [Nat.mul_comm histCount])
        omega
    · rw [bucketEnd]
      split
      · exact h.2
      · next hne =>
        -- index `histCount` belongs to the end of the range, which is on a boundary
        have hqlt : q < histCount := by
          refine lt_of_le_of_ne hqN fun heq => hon ⟨?_, by rw [heq]; decide⟩
          rw [hbq, heq, Nat.mul_div_cancel_left _ (by decide)]
          rw [heq, Nat.mul_comm] at hlow
          have := Nat.le_of_mul_le_mul_right hlow (by decide)
          omega
        have hmul' : (q + 1) * r < 2 ^ 64 := by
          have := Nat.mul_le_mul (show q + 1 ≤ histCount - 1 by omega) hmax
          refine this.trans_lt (by decide)
        rw [hbound (q + 1) (by omega) hmul']
        have : d ≤ (q + 1) * r / histCount :=
          (Nat.le_div_iff_mul_le (by decide)).mpr hhigh.le
        omega

/-- For ranges of `2 ^ 20` up to `2 ^ 44` transaction ids. -/
theorem bucket_place (hlt : tidBeg < tidEnd) (hend : tidEnd < 2 ^ 64)
    (hmin : 2 ^ 20 ≤ tidEnd - tidBeg) (hmax : tidEnd - tidBeg ≤ 2 ^ 44) {tid : Nat}
    (h : tidBeg ≤ tid ∧ tid ≤ tidEnd) :
    bucket tidBeg tidEnd tid = 0 ∨ (boundary tidBeg tidEnd (bucket tidBeg tidEnd tid) < tid ∧
      tid ≤ bucketEnd tidBeg tidEnd (bucket tidBeg tidEnd tid)) := by
  rcases Nat.lt_or_ge ((tid - tidBeg) * histCount) (2 ^ 64) with hmul | hmul
  · obtain ⟨h1, h2⟩ := bucket_place_of_lt hlt hend hmin hmax h hmul
    exact h1.imp_right fun h1 => ⟨h1, h2⟩
  · -- the last id of a range of `2 ^ 44`
    left
    have hd : tid - tidBeg = 2 ^ 44 := by
      rw [histCount] at hmul
      omega
    rw [bucket, hd]
    have h0 : 2 ^ 44 * histCount % 2 ^ 64 / (tidEnd - tidBeg) = 0 := by
      rw [show 2 ^ 44 * histCount % 2 ^ 64 = 0 by decide, Nat.zero_div]
    rw [h0, if_neg fun hc => hc.2 rfl]

end

/-! ## The total -/

/-- `len` for the deletion and for the creation of a record. -/
def MrecInfo.deletionLen (mrec : MrecInfo) : Int :=
  if mrec.type = RecType.record.code then lenAlign mrec.recSize - lenAlign mrec.dataLen
  else lenAlign mrec.recSize

def MrecInfo.creationLen (mrec : MrecInfo) : Int :=
  if mrec.type = recNoData then lenAlign mrec.recSize + lenAlign mrec.dataLen
  else lenAlign mrec.recSize

/-- `x += len` on a 64-bit counter. -/
def addLen (x : Nat) (len : Int) : Nat := ((x + len) % 2 ^ 64).toNat

/-- `total` after one more record. -/
def addTotal (tidBeg tidEnd total : Nat) (mrec : MrecInfo) : Nat :=
  if typeLow mrec.type = RecType.record.code ∨ typeLow mrec.type = RecType.pass.code then
    let total :=
      if mrec.deleteTid ≠ 0 ∧ tidBeg ≤ mrec.deleteTid ∧ mrec.deleteTid ≤ tidEnd then
        addLen total mrec.deletionLen
      else total
    if mrec.createTid ≠ 0 ∧ tidBeg ≤ mrec.createTid ∧ mrec.createTid ≤ tidEnd then
      addLen total mrec.creationLen
    else total
  else total

/-- `total` after the prescan. -/
def prescanTotal (tidBeg tidEnd : Nat) (mrecs : List MrecInfo) : Nat :=
  mrecs.foldl (addTotal tidBeg tidEnd) 0

section

variable {tidBeg tidEnd : Nat} {tidBytes tidBytes' : Nat → Nat} {total : Nat} {mrec : MrecInfo}

theorem addLen_cast (x : Nat) (len : Int) : (addLen x len : Int) = (x + len) % 2 ^ 64 :=
  Int.toNat_of_nonneg (Int.emod_nonneg _ (by decide))

theorem sum_update {β : Type} {n i : Nat} (f : Nat → β) (g : β → Int) (v : β) (hi : i < n) :
    ∑ j ∈ Finset.range n, g (Function.update f i v j) =
      ∑ j ∈ Finset.range n, g (f j) + (g v - g (f i)) := by
  have hmem := Finset.mem_range.mpr hi
  have hrest : ∑ j ∈ (Finset.range n).erase i, g (Function.update f i v j) =
      ∑ j ∈ (Finset.range n).erase i, g (f j) := by
    refine Finset.sum_congr rfl fun j hj => ?_
    rw [Function.update_of_ne (Finset.ne_of_mem_erase hj)]
  rw [← Finset.add_sum_erase _ _ hmem, ← Finset.add_sum_erase _ (fun j => g (f j)) hmem, hrest,
    Function.update_self]
  ring

/-- The buckets hold `total`. -/
def Holds (tidBytes : Nat → Nat) (total : Nat) : Prop :=
  (∑ j ∈ Finset.range histCount, (tidBytes j : Int)) % 2 ^ 64 = total

section

variable (h : Holds tidBytes total)
include h

theorem Holds.tally {tid : Nat} {len : Int}
    (ht : tally tidBeg tidEnd tid len tidBytes = .ok tidBytes') :
    Holds tidBytes' (addLen total len) := by
  unfold Mirror.tally at ht
  dsimp only at ht
  split at ht
  · next hlt =>
    obtain rfl := Except.ok.inj ht
    unfold Holds at h ⊢
    rw [sum_update tidBytes (fun n => (n : Int)) _ hlt, addLen_cast, ← h, ← addLen, addLen_cast]
    omega
  · cases ht

theorem Holds.addDeletion (hd : addDeletion tidBeg tidEnd mrec tidBytes = .ok tidBytes') :
    Holds tidBytes'
      (if mrec.deleteTid ≠ 0 ∧ tidBeg ≤ mrec.deleteTid ∧ mrec.deleteTid ≤ tidEnd then
        addLen total mrec.deletionLen
      else total) := by
  unfold Mirror.addDeletion at hd
  dsimp only at hd
  split at hd
  · next hin =>
    rw [if_pos hin, MrecInfo.deletionLen]
    split at hd
    · next htype =>
      rw [if_pos htype]
      split at hd
      · cases hd
      · exact h.tally hd
    · next htype =>
      rw [if_neg htype]
      exact h.tally hd
  · next hout =>
    obtain rfl := Except.ok.inj hd
    rw [if_neg hout]
    exact h

theorem Holds.addCreation (hc : addCreation tidBeg tidEnd mrec tidBytes = .ok tidBytes') :
    Holds tidBytes'
      (if mrec.createTid ≠ 0 ∧ tidBeg ≤ mrec.createTid ∧ mrec.createTid ≤ tidEnd then
        addLen total mrec.creationLen
      else total) := by
  unfold Mirror.addCreation at hc
  dsimp only at hc
  split at hc
  · next hin =>
    rw [if_pos hin]
    exact h.tally hc
  · next hout =>
    obtain rfl := Except.ok.inj hc
    rw [if_neg hout]
    exact h

theorem Holds.addRecord (hr : addRecord tidBeg tidEnd tidBytes mrec = .ok tidBytes') :
    Holds tidBytes' (addTotal tidBeg tidEnd total mrec) := by
  unfold Mirror.addRecord at hr
  unfold addTotal
  split at hr
  · next htype =>
    rw [if_pos htype]
    cases hd : Mirror.addDeletion tidBeg tidEnd mrec tidBytes with
    | error e =>
      rw [hd] at hr
      cases hr
    | ok b =>
      rw [hd] at hr
      exact (h.addDeletion hd).addCreation hr
  · next htype =>
    obtain rfl := Except.ok.inj hr
    rw [if_neg htype]
    exact h

theorem Holds.foldlM {mrecs : List MrecInfo}
    (hr : mrecs.foldlM (Mirror.addRecord tidBeg tidEnd) tidBytes = .ok tidBytes') :
    Holds tidBytes' (mrecs.foldl (addTotal tidBeg tidEnd) total) := by
  induction mrecs generalizing tidBytes total with
  | nil =>
    obtain rfl := Except.ok.inj hr
    exact h
  | cons mrec mrecs ih =>
    rw [List.foldlM_cons] at hr
    cases hm : Mirror.addRecord tidBeg tidEnd tidBytes mrec with
    | error e =>
      rw [hm] at hr
      cases hr
    | ok b =>
      rw [hm] at hr
      exact ih (h.addRecord hm) hr

end

/-- The slices up to the last one. -/
def Hist.sum (h : Hist) : Int := ∑ k ∈ Finset.range (h.res + 1), ((h.ary k).bytes : Int)

theorem Hist.sum_reduceStep (h : Hist) (splitupOpt i : Nat) :
    (h.reduceStep splitupOpt tidBeg tidEnd tidBytes i).sum % 2 ^ 64 =
      (h.sum + tidBytes i) % 2 ^ 64 := by
  -- whether a slice is begun or not, the sum is the same before the bytes are added
  have hadd : ∀ g : Hist, Hist.sum ⟨g.res, Function.update g.ary g.res
      ⟨(g.ary g.res).tid, ((g.ary g.res).bytes + tidBytes i) % 2 ^ 64⟩⟩ % 2 ^ 64 =
        (g.sum + tidBytes i) % 2 ^ 64 := by
    intro g
    have hsum := sum_update g.ary (fun x => (x.bytes : Int))
      ⟨(g.ary g.res).tid, ((g.ary g.res).bytes + tidBytes i) % 2 ^ 64⟩ (show g.res < g.res + 1 by omega)
    rw [Hist.sum, hsum, Hist.sum]
    push_cast
    omega
  rw [Hist.reduceStep]
  split
  · refine (hadd _).trans ?_
    have hnew : Hist.sum ⟨h.res + 1, Function.update h.ary (h.res + 1)
        ⟨boundary tidBeg tidEnd i, 0⟩⟩ = h.sum := by
      simp only [Hist.sum]
      rw [Finset.sum_range_succ, Function.update_self, Nat.cast_zero, add_zero]
      refine Finset.sum_congr rfl fun k hk => ?_
      rw [Function.update_of_ne (Finset.mem_range.mp hk).ne]
    rw [hnew]
  · exact hadd h

theorem sum_reduce (splitupOpt : Nat) (ary : Nat → Slice) (n : Nat) :
    (reduce splitupOpt tidBeg tidEnd tidBytes ary n).sum % 2 ^ 64 =
      (∑ j ∈ Finset.range (n + 1), (tidBytes j : Int)) % 2 ^ 64 := by
  induction n with
  | zero => simp [reduce, Hist.sum]
  | succ n ih =>
    rw [reduce, Hist.sum_reduceStep, Finset.sum_range_succ, Int.add_emod, ih, ← Int.add_emod]

/-- The slices of a histogram hold what the prescan counted. -/
theorem slices_total {mrecs : List MrecInfo} {splitupOpt : Nat} {ary : Nat → Slice} {h : Hist}
    (hlt : tidBeg < tidEnd) (hend : tidEnd < 2 ^ 64)
    (hgen : generateHistogram mrecs splitupOpt ary tidBeg tidEnd = .ok h) :
    (∑ k ∈ Finset.range h.res, (h.ary k).bytes) % 2 ^ 64 = prescanTotal tidBeg tidEnd mrecs := by
  cases hrecs : mrecs.foldlM (Mirror.addRecord tidBeg tidEnd) (fun _ => 0) with
  | error e =>
    rw [generateHistogram, if_neg (not_le.mpr hlt), hrecs] at hgen
    cases hgen
  | ok tidBytes =>
    rw [generateHistogram_eq hlt hend hrecs] at hgen
    obtain rfl := Except.ok.inj hgen
    have hstart : Holds (fun _ => 0) 0 := by simp [Holds]
    have hholds : Holds tidBytes (prescanTotal tidBeg tidEnd mrecs) := hstart.foldlM hrecs
    have hsum : (reduce splitupOpt tidBeg tidEnd tidBytes ary (histCount - 1)).sum % 2 ^ 64 =
        prescanTotal tidBeg tidEnd mrecs := (sum_reduce splitupOpt ary _).trans hholds
    generalize reduce splitupOpt tidBeg tidEnd tidBytes ary (histCount - 1) = g at hsum
    have hclose : ∑ k ∈ Finset.range (g.res + 1), ((g.close tidEnd).ary k).bytes =
        ∑ k ∈ Finset.range (g.res + 1), (g.ary k).bytes := by
      refine Finset.sum_congr rfl fun k hk => ?_
      rw [Hist.close_ary g tidEnd (Nat.lt_succ_iff.mp (Finset.mem_range.mp hk))]
    rw [Hist.close_res, hclose]
    rw [Hist.sum, ← Nat.cast_sum] at hsum
    omega

end

/-- The assertion on the length of a deleted record is the only one that can fail. -/
theorem generateHistogram_ok_or {tidBeg tidEnd : Nat} (hlt : tidBeg < tidEnd)
    (hend : tidEnd < 2 ^ 64) (mrecs : List MrecInfo) (splitupOpt : Nat) (ary : Nat → Slice) :
    (∃ h, generateHistogram mrecs splitupOpt ary tidBeg tidEnd = .ok h) ∨
      ∃ mrec ∈ mrecs, ¬ mrec.Sized := by
  by_cases hm : ∀ mrec ∈ mrecs, mrec.Sized
  · obtain ⟨h, hgen, -⟩ := generateHistogram_tids hlt hend hm
    exact .inl ⟨h, hgen⟩
  · push Not at hm
    exact .inr hm

/-- Buckets and slices of `generate_histogram`, for every range and every list of records: the
    bucket of a counted transaction id exists, there are not too many slices, so that only the
    assertion on the length of a record can fail, the slices hold the total, and in a range of
    `2 ^ 20` up to `2 ^ 44` a transaction id lies in its bucket. -/
theorem histogram_sound {tidBeg tidEnd : Nat} (hlt : tidBeg < tidEnd) (hend : tidEnd < 2 ^ 64)
    (mrecs : List MrecInfo) (splitupOpt : Nat) (ary : Nat → Slice) :
    (∀ tid, tidBeg ≤ tid ∧ tid ≤ tidEnd → bucket tidBeg tidEnd tid < histCount) ∧
      (∀ tidBytes, ((reduce splitupOpt tidBeg tidEnd tidBytes ary (histCount - 1)).close
        tidEnd).res ≤ histCount) ∧
      ((∃ h, generateHistogram mrecs splitupOpt ary tidBeg tidEnd = .ok h) ∨
        ∃ mrec ∈ mrecs, ¬ mrec.Sized) ∧
      (∀ h, generateHistogram mrecs splitupOpt ary tidBeg tidEnd = .ok h →
        (∑ k ∈ Finset.range h.res, (h.ary k).bytes) % 2 ^ 64 =
          prescanTotal tidBeg tidEnd mrecs) ∧
      (2 ^ 20 ≤ tidEnd - tidBeg → tidEnd - tidBeg ≤ 2 ^ 44 →
        ∀ tid, tidBeg ≤ tid ∧ tid ≤ tidEnd →
          bucket tidBeg tidEnd tid = 0 ∨
            (boundary tidBeg tidEnd (bucket tidBeg tidEnd tid) < tid ∧
              tid ≤ bucketEnd tidBeg tidEnd (bucket tidBeg tidEnd tid))) :=
  ⟨fun _ h => bucket_lt hlt hend h, fun _ => reduce_close_res_le hlt hend,
    generateHistogram_ok_or hlt hend mrecs splitupOpt ary, fun _ hgen => slices_total hlt hend hgen,
    fun hmin hmax _ h => bucket_place hlt hend hmin hmax h⟩

/-- A range of `2 ^ 21`, with one record that was created in it. -/
theorem histogram_sound_record :
    (∃ h, generateHistogram [⟨0x10000001, 96, 16384, 7, 0⟩] 4096 (fun _ => ⟨0, 0⟩) 1 (2 ^ 21 + 1) =
        .ok h ∧ (∑ k ∈ Finset.range h.res, (h.ary k).bytes) % 2 ^ 64 = 16480) ∧
      bucket 1 (2 ^ 21 + 1) 7 = 2 ∧ boundary 1 (2 ^ 21 + 1) 2 < 7 ∧
      7 ≤ bucketEnd 1 (2 ^ 21 + 1) 2 := by
  obtain ⟨-, -, hrun, htotal, hplace⟩ := histogram_sound (show 1 < 2 ^ 21 + 1 by decide)
    (by decide) [⟨0x10000001, 96, 16384, 7, 0⟩] 4096 (fun _ => ⟨0, 0⟩)
  have hbucket : bucket 1 (2 ^ 21 + 1) 7 = 2 := by decide
  obtain ⟨h, hgen⟩ := hrun.resolve_right (by
    rintro ⟨mrec, hmem, hsized⟩
    obtain rfl := List.mem_singleton.mp hmem
    exact hsized fun h => absurd h (by decide))
  refine ⟨⟨h, hgen, (htotal h hgen).trans (by decide)⟩, hbucket, ?_⟩
  have h7 := hplace (by decide) (by decide) 7 (by decide)
  rw [hbucket] at h7
  exact h7.resolve_left (by decide)

end Lh1.Hammer.Mirror
