/-
  The freemap that newfs_hammer makes of a volume, and what `count_freemap` says about it before
  (sbin/hammer/ondisk.c).

  A volume is divided into sections of 4 TB. `initialize_freemap` first takes a big-block from the
  start of the volume for each section, for its layer 2 array, and then fills the arrays and counts
  what is left. `count_freemap` comes to the number without any of this. They agree because the
  layer 1 entries of a volume are not in use before: the entries of all volumes start out as
  unavailable, and what is done for a volume only changes the entries of its own sections.

  * `initializeFreemap_spec`: what `initialize_freemap` leaves, and what it returns.
  * `fresh_run`: the entries of the volumes that were not formatted yet.
  * `count_freemap_announces`: `count_freemap` is right about every volume.
-/
import Lh1.Hammer.Newfs

namespace Lh1.Hammer

open Lib

/-! ## Sections -/

theorem bigblockSize_eq : bigblockSize = 8388608 := rfl

theorem layer2Span_eq : layer2Span = 4398046511104 := rfl

theorem radix1_eq : radix1 = 262144 := rfl

theorem radix2_eq : radix2 = 524288 := rfl

/-- The big-block with number `m` in section `i` of a volume. -/
def blockOf (v i m : Nat) : Nat := rawBuffer v 0 + i * layer2Span + m * bigblockSize

section

variable {v i m k n : Nat}

theorem layer1Index_blockOf (hv : v < 256) (hi : i < 1024) (hm : m < radix2) :
    layer1Index (blockOf v i m) = v * 1024 + i := by
  rw [radix2_eq] at hm
  rw [layer1Index, blockOf, rawBuffer, layer2Span_eq, bigblockSize_eq]
  omega

theorem layer2Index_blockOf (hm : m < radix2) : layer2Index (blockOf v i m) = m := by
  rw [radix2_eq] at hm
  rw [layer2Index, blockOf, rawBuffer, layer2Span_eq, bigblockSize_eq]
  omega

theorem layer2Index_block (hm : m < radix2) : layer2Index (m * bigblockSize) = m := by
  rw [radix2_eq] at hm
  rw [layer2Index, layer2Span_eq, bigblockSize_eq]
  omega

/-- The big-blocks of a volume one after the other. -/
theorem blockOf_eq (v i m : Nat) :
    blockOf v i m = rawBuffer v 0 + (i * radix2 + m) * bigblockSize := by
  rw [blockOf, layer2Span]
  ring

/-- How many sections there are up to the end of a volume. -/
def sections (v freeEnd : Nat) : Nat := iterations (rawBuffer v 0) (layer2Align freeEnd) layer2Span

/-- The loops over the sections and over the big-blocks have the same end. -/
theorem sections_spec (hk : k * bigblockSize < 2 ^ 52) :
    sections v (rawBuffer v 0 + k * bigblockSize) ≤ 1024 ∧
      iterations (rawBuffer v 0) (layer2Align (rawBuffer v 0 + k * bigblockSize)) bigblockSize =
        sections v (rawBuffer v 0 + k * bigblockSize) * radix2 := by
  rw [bigblockSize_eq] at hk ⊢
  rw [sections, iterations, iterations, layer2Align, rawBuffer, layer2Span_eq, radix2_eq]
  omega

end

/-! ## The first loop -/

/-- The address of the layer 1 entry of section `i` of volume `v`. -/
def Fs.section1 (fs : Fs) (v i : Nat) : Nat := fs.freemap + (v * 1024 + i) * 32

/-- The layer 1 entries of volume `v` are not in use. -/
def Fs.Fresh (fs : Fs) (v : Nat) : Prop := ∀ i < 1024, (fs.layer1 (fs.section1 v i)).phys = unavail

section

variable {s s' t : Fs} {u : Unit} {v i m n count : Nat}

theorem layer1Offset_blockOf (fs : Fs) (hv : v < 256) (hi : i < 1024) (hm : m < radix2) :
    fs.layer1Offset (blockOf v i m) = fs.section1 v i := by
  rw [Fs.layer1Offset, layer1Index_blockOf hv hi hm, Fs.section1]

theorem section1_inj {j w : Nat} (fs : Fs) (hi : i < 1024) (hj : j < 1024)
    (h : fs.section1 v i = fs.section1 w j) : v = w ∧ i = j := by
  rw [Fs.section1, Fs.section1] at h
  omega

/-- A section without a layer 2 array gets one from its volume. -/
theorem preallocateLayer2_ok (hv : v < 256) (hi : i < 1024)
    (hfree : (s.layer1 (s.section1 v i)).phys = unavail) :
    preallocateLayer2 v (blockOf v i 0) s = .ok (u, t) ↔
      (zoneDecode (s.vols v).freeOff = 2 ∧ zoneDecode (s.vols v).freeEnd = 2 ∧
        (s.vols v).freeOff < (s.vols v).freeEnd) ∧
      t = (s.bootstrapped v).putLayer1 (s.section1 v i) ⟨(s.vols v).freeOff, 0⟩ := by
  have hoff : s.layer1Offset (blockOf v i 0) = s.section1 v i :=
    layer1Offset_blockOf s hv hi (by decide)
  have hunavail : (s.layer1At (blockOf v i 0)).phys = unavail := by
    rw [Fs.layer1At, hoff, hfree]
  simp only [preallocateLayer2, bind_ok, get_ok]
  constructor
  · rintro ⟨_, _, ⟨rfl, rfl⟩, h⟩
    rw [if_pos hunavail] at h
    simp only [bind_ok, bootstrapBigblock_ok, setLayer1_ok, hoff] at h
    obtain ⟨_, _, ⟨hroom, rfl, rfl⟩, rfl⟩ := h
    exact ⟨hroom, rfl⟩
  · rintro ⟨hroom, rfl⟩
    refine ⟨s, s, ⟨rfl, rfl⟩, ?_⟩
    rw [if_pos hunavail]
    simp only [bind_ok, bootstrapBigblock_ok, setLayer1_ok, hoff]
    exact ⟨_, _, ⟨hroom, rfl, rfl⟩, rfl⟩

/-- After `n` turns of the first loop: the first `n` sections have their arrays, one big-block
    after the other. -/
structure Preallocated (s : Fs) (v n : Nat) (t : Fs) : Prop where
  freemap : t.freemap = s.freemap
  vol : t.vols v = { s.vols v with freeOff := (s.vols v).freeOff + n * bigblockSize }
  done : ∀ i < n, (t.layer1 (s.section1 v i)).phys = (s.vols v).freeOff + i * bigblockSize
  rest : ∀ a, (∀ i < n, a ≠ s.section1 v i) → t.layer1 a = s.layer1 a

theorem Preallocated.start (s : Fs) (v : Nat) : Preallocated s v 0 s :=
  ⟨rfl, by rw [Nat.zero_mul, Nat.add_zero], nofun, fun _ _ => rfl⟩

theorem Preallocated.section1 (h : Preallocated s v n t) (w i : Nat) :
    t.section1 w i = s.section1 w i := by
  rw [Fs.section1, Fs.section1, h.freemap]

theorem Preallocated.fresh (h : Preallocated s v n t) (hs : s.Fresh v) (hn : n < 1024) :
    (t.layer1 (t.section1 v n)).phys = unavail := by
  rw [h.section1, h.rest _ fun i hi heq => ?_]
  · exact hs n hn
  · have := (section1_inj s hn (by omega) heq).2
    omega

theorem Preallocated.step (h : Preallocated s v n t) (hv : v < 256) (hn : n < 1024) (hs : s.Fresh v)
    (hstep : preallocateLayer2 v (blockOf v n 0) t = .ok (u, s')) :
    Preallocated s v (n + 1) s' := by
  obtain ⟨-, rfl⟩ := (preallocateLayer2_ok hv hn (h.fresh hs hn)).mp hstep
  have hvol := h.vol
  refine ⟨h.freemap, ?_, fun i hi => ?_, fun a ha => ?_⟩
  · simp only [Fs.putLayer1, Fs.bootstrapped, Fs.putVolume, Function.update_self, hvol]
    rw [Nat.add_assoc, Nat.succ_mul]
  · simp only [Fs.putLayer1, Fs.bootstrapped, Fs.putVolume, h.section1]
    by_cases hin : i = n
    · rw [hin, Function.update_self, hvol]
    · rw [Function.update_of_ne fun heq => hin (section1_inj s (by omega) hn heq).2]
      exact h.done i (by omega)
  · simp only [Fs.putLayer1, Fs.bootstrapped, Fs.putVolume, h.section1]
    rw [Function.update_of_ne (ha n (by omega))]
    exact h.rest a fun i hi => ha i (by omega)

/-! ## The second loop -/

/-- Whether `initialize_freemap` counts a big-block. -/
def Volume.isFree (vol : Volume) (off : Nat) : Bool := (initialEntry vol off).zone = 0

/-- After `n` turns over the big-blocks of a section. -/
structure SectionFilled (s : Fs) (vol : Volume) (l1 : Layer1) (phys n count : Nat) (t : Fs) :
    Prop where
  layer1 : t.layer1 = s.layer1
  freemap : t.freemap = s.freemap
  vols : t.vols = s.vols
  done : ∀ m < n, t.layer2 (l1.phys + m * 16) = initialEntry vol (phys + m * bigblockSize)
  rest : ∀ a, (∀ m < n, a ≠ l1.phys + m * 16) → t.layer2 a = s.layer2 a
  count : count = (List.range n).countP fun m => vol.isFree (phys + m * bigblockSize)

theorem fillSection_spec {vol : Volume} {l1 : Layer1} {phys : Nat}
    (h : fillSection vol l1 phys s = .ok (count, t)) :
    SectionFilled s vol l1 phys radix2 count t := by
  refine loop_inv (P := SectionFilled s vol l1 phys) ⟨rfl, rfl, rfl, nofun, fun _ _ => rfl, rfl⟩ ?_ h
  intro m hm count s1 count' s2 h1 hbody
  simp only [bind_ok, setLayer2_ok, pure_ok, Layer1.layer2Offset, layer2Index_block hm] at hbody
  obtain ⟨_, _, rfl, rfl, rfl⟩ := hbody
  refine ⟨h1.layer1, h1.freemap, h1.vols, fun j hj => ?_, fun a ha => ?_, ?_⟩
  · rw [Fs.putLayer2_layer2]
    by_cases hjm : j = m
    · rw [hjm, Function.update_self]
    · rw [Function.update_of_ne (by omega)]
      exact h1.done j (by omega)
  · rw [Fs.putLayer2_layer2, Function.update_of_ne (ha m (by omega))]
    exact h1.rest a fun j hj => ha j (by omega)
  · rw [List.range_succ, List.countP_append, ← h1.count, List.countP_singleton, Volume.isFree]
    simp only [decide_eq_true_eq]
    split <;> omega

/-- After `n` turns over the sections, whose arrays start at `base`. -/
structure VolumeFilled (s : Fs) (v base n count : Nat) (t : Fs) : Prop where
  phys : ∀ a, (t.layer1 a).phys = (s.layer1 a).phys
  freemap : t.freemap = s.freemap
  vols : t.vols = s.vols
  done : ∀ i < n, ∀ m < radix2, t.layer2 (base + i * bigblockSize + m * 16) =
    initialEntry (s.vols v) (blockOf v i m)
  count : count = (List.range (n * radix2)).countP fun x =>
    (s.vols v).isFree (rawBuffer v 0 + x * bigblockSize)

theorem VolumeFilled.start (s : Fs) (v base : Nat) : VolumeFilled s v base 0 0 s :=
  ⟨fun _ => rfl, rfl, rfl, nofun, by rw [Nat.zero_mul]; rfl⟩

theorem VolumeFilled.step {base c : Nat} (h : VolumeFilled s v base n count t) (hv : v < 256)
    (hn : n < 1024) (hphys : (s.layer1 (s.section1 v n)).phys = base + n * bigblockSize)
    (hstep : fillLayer1 v (blockOf v n 0) t = .ok (c, s')) :
    VolumeFilled s v base (n + 1) (count + c) s' := by
  have hoff : t.layer1Offset (blockOf v n 0) = s.section1 v n := by
    rw [layer1Offset_blockOf t hv hn (by decide), Fs.section1, h.freemap, Fs.section1]
  have hl1 : (t.layer1At (blockOf v n 0)).phys = base + n * bigblockSize := by
    rw [Fs.layer1At, hoff, h.phys, hphys]
  simp only [fillLayer1, bind_ok, get_ok, check_ok, setLayer1_ok, pure_ok] at hstep
  obtain ⟨_, _, ⟨rfl, rfl⟩, _, _, ⟨-, rfl⟩, c', t1, hfill, _, _, rfl, rfl, rfl⟩ := hstep
  have hf := fillSection_spec hfill
  have hblock : ∀ m, blockOf v n 0 + m * bigblockSize = blockOf v n m := by
    intro m
    rw [blockOf, blockOf, Nat.zero_mul, Nat.add_zero]
  refine ⟨fun a => ?_, hf.freemap.trans h.freemap, hf.vols.trans h.vols, fun i hi m hm => ?_, ?_⟩
  · rw [Fs.putLayer1_layer1, Function.update_apply]
    split
    next ha =>
      rw [ha, ← h.phys]
      rfl
    next => rw [hf.layer1, h.phys]
  · rw [Fs.putLayer1_layer2]
    by_cases hin : i = n
    · have := hf.done m hm
      rw [hl1, hblock, h.vols] at this
      rw [hin, this]
    · rw [hf.rest _ fun j hj => ?_]
      · exact h.done i (by omega) m hm
      · rw [hl1, bigblockSize_eq]
        rw [radix2_eq] at hm hj
        omega
  · have hrange : List.range ((n + 1) * radix2) =
        List.range (n * radix2) ++ (List.range radix2).map fun m => n * radix2 + m := by
      rw [Nat.succ_mul, List.range_add]
    rw [hrange, List.countP_append, ← h.count, List.countP_map, hf.count, h.vols]
    refine congrArg (count + ·) (List.countP_congr fun m _ => ?_)
    rw [hblock, blockOf_eq, Function.comp_apply]

/-! ## Both loops -/

/-- What `initialize_freemap` leaves of a volume whose layer 1 entries were not in use. -/
structure Initialized (s : Fs) (v count : Nat) (t : Fs) : Prop where
  freemap : t.freemap = s.freemap
  /-- Only the entries of the volume itself get an array. -/
  others : ∀ a, (∀ i < 1024, a ≠ s.section1 v i) → (t.layer1 a).phys = (s.layer1 a).phys
  vol : t.vols v = { s.vols v with
    freeOff := (s.vols v).freeOff + sections v (s.vols v).freeEnd * bigblockSize }
  /-- The entries of the big-blocks, as found through both layers. -/
  entries : ∀ x < sections v (s.vols v).freeEnd * radix2,
    t.layer2At (rawBuffer v 0 + x * bigblockSize) =
      initialEntry (t.vols v) (rawBuffer v 0 + x * bigblockSize)
  count : count = (List.range (sections v (s.vols v).freeEnd * radix2)).countP fun x =>
    (t.vols v).isFree (rawBuffer v 0 + x * bigblockSize)

theorem initializeFreemap_spec {k : Nat} (hv : v < 256) (hs : s.Fresh v)
    (hend : (s.vols v).freeEnd = rawBuffer v 0 + k * bigblockSize) (hk : k * bigblockSize < 2 ^ 52)
    (h : initializeFreemap v s = .ok (count, t)) : Initialized s v count t := by
  have hle : sections v (s.vols v).freeEnd ≤ 1024 := hend ▸ (sections_spec hk).1
  have hphys : ∀ i, rawBuffer v 0 + i * layer2Span = blockOf v i 0 := by
    intro i
    rw [blockOf, Nat.zero_mul, Nat.add_zero]
  simp only [initializeFreemap, bind_ok, get_ok, assertVolumeOffset_ok, hphys] at h
  obtain ⟨s0, t0, ⟨hs0, ht0⟩, _, t0', ⟨-, ht0'⟩, _, s1, h1, h2⟩ := h
  obtain rfl := hs0.symm
  obtain rfl := (ht0'.trans ht0).symm
  have hpre : Preallocated s v (sections v (s.vols v).freeEnd) s1 := by
    refine loop_inv (P := fun n _ t => Preallocated s v n t) (.start s v) ?_ h1
    intro n hn _ t1 _ t2 hP hbody
    exact hP.step hv (by omega) hs hbody
  have hfill : VolumeFilled s1 v (s.vols v).freeOff (sections v (s.vols v).freeEnd) count t := by
    refine loop_inv (P := fun n count t => VolumeFilled s1 v (s.vols v).freeOff n count t)
      (.start s1 v _) ?_ h2
    intro n hn c t1 c' t2 hQ hbody
    simp only [bind_ok, pure_ok] at hbody
    obtain ⟨d, _, hbody, rfl, rfl⟩ := hbody
    exact hQ.step hv (by omega) (by rw [hpre.section1, hpre.done n hn]) hbody
  have hvol : t.vols v = { s.vols v with
      freeOff := (s.vols v).freeOff + sections v (s.vols v).freeEnd * bigblockSize } := by
    rw [hfill.vols, hpre.vol]
  refine ⟨hfill.freemap.trans hpre.freemap, fun a ha => ?_, hvol, fun x hx => ?_, ?_⟩
  · rw [hfill.phys, hpre.rest a fun i hi => ha i (by omega)]
  · -- big-block `x` is number `x % radix2` of section `x / radix2`
    have hm : x % radix2 < radix2 := Nat.mod_lt _ (by decide)
    have hi : x / radix2 < sections v (s.vols v).freeEnd := Nat.div_lt_of_lt_mul (by
      rwa [Nat.mul_comm] at hx)
    have hx' : rawBuffer v 0 + x * bigblockSize = blockOf v (x / radix2) (x % radix2) := by
      rw [blockOf_eq, Nat.div_add_mod']
    have hsec : t.section1 v (x / radix2) = s.section1 v (x / radix2) := by
      rw [Fs.section1, Fs.section1, hfill.freemap, hpre.freemap]
    rw [hx', Fs.layer2At, Fs.layer1At, layer1Offset_blockOf t hv (by omega) hm, hsec,
      Layer1.layer2Offset, layer2Index_blockOf hm, hfill.phys, hpre.done _ hi, hfill.done _ hi _ hm,
      hfill.vols]
  · rw [hfill.vols]
    exact hfill.count

end

/-! ## The layer 1 entries of all volumes -/

section

variable {s t : Fs} {u : Unit} {v w count : Nat}

/-- The loop of `format_freemap`. -/
theorem clearLayer1_spec {off n : Nat}
    (h : loop n (fun i _ => setLayer1 (off + i * 32) ⟨unavail, 0⟩) () s = .ok (u, t)) :
    (∀ i < n, (t.layer1 (off + i * 32)).phys = unavail) ∧ t.vols = s.vols := by
  refine loop_inv (P := fun n _ t =>
    (∀ i < n, (t.layer1 (off + i * 32)).phys = unavail) ∧ t.vols = s.vols) ⟨nofun, rfl⟩ ?_ h
  intro n _ _ s1 _ s2 hP hbody
  obtain rfl := setLayer1_ok.mp hbody
  refine ⟨fun i hi => ?_, hP.2⟩
  rw [Fs.putLayer1_layer1]
  by_cases hin : i = n
  · rw [hin, Function.update_self]
  · rw [Function.update_of_ne (by omega)]
    exact hP.1 i (by omega)

/-- After `format_freemap` no volume has layer 2 arrays. -/
theorem formatFreemap_spec (h : formatFreemap 0 s = .ok (u, t)) :
    t.vols 0 = { s.vols 0 with freeOff := (s.vols 0).freeOff + bigblockSize } ∧
      ∀ w < 256, t.Fresh w := by
  simp only [formatFreemap, bind_ok, check_ok, bootstrapBigblock_ok, modify_ok] at h
  obtain ⟨_, s0, ⟨-, hs0⟩, off, _, ⟨-, hoff, rfl⟩, _, t1, hloop, rfl⟩ := h
  obtain rfl := hs0.symm
  obtain ⟨hall, hvols⟩ := clearLayer1_spec hloop
  refine ⟨?_, fun w hw i hi => ?_⟩
  · change t1.vols 0 = _
    rw [hvols, Fs.bootstrapped, Fs.putVolume_vols, Function.update_self]
  · rw [radix1_eq] at hall
    exact hall (w * 1024 + i) (by omega)

/-- No volume gets or loses layer 2 arrays. -/
structure PhysKept (s t : Fs) : Prop where
  freemap : t.freemap = s.freemap
  phys : ∀ a, (t.layer1 a).phys = (s.layer1 a).phys

instance : IsPreorder Fs PhysKept where
  refl _ := ⟨rfl, fun _ => rfl⟩
  trans _ _ _ h h' := ⟨h'.freemap.trans h.freemap, fun a => (h'.phys a).trans (h.phys a)⟩

theorem PhysKept.fresh (h : PhysKept s t) (hs : s.Fresh w) : t.Fresh w := by
  intro i hi
  rw [Fs.section1, h.freemap, h.phys]
  exact hs i hi

theorem PhysKept.of_eq (hf : t.freemap = s.freemap) (hl : t.layer1 = s.layer1) : PhysKept s t :=
  ⟨hf, fun a => by rw [hl]⟩

theorem physKept_claimed (s : Fs) (off : Nat) (l : Layer2) : PhysKept s (s.claimed off l) := by
  refine ⟨rfl, fun a => ?_⟩
  change (Function.update s.layer1 (s.layer1Offset off) _ a).phys = _
  rw [Function.update_apply]
  split
  next ha =>
    rw [ha]
    rfl
  next => rfl

theorem within_modify {f : Fs → Fs} (h : ∀ s, PhysKept s (f s)) :
    Within PhysKept (modify f : HamM Unit) := by
  intro s _ t ht
  rw [modify_ok] at ht
  exact ht ▸ h s

theorem within_check {p : Prop} [Decidable p] {e : Fault} : Within PhysKept (check p e) := by
  intro s _ t h
  rw [(check_ok.mp h).2]
  exact refl_of PhysKept s

theorem within_get : Within PhysKept (get : HamM Fs) := by
  intro s _ t h
  rw [(get_ok.mp h).2]
  exact refl_of PhysKept s

theorem within_allocAgain (zone bytes n : Nat) : Within PhysKept (allocAgain zone bytes n) := by
  induction n with
  | zero => exact fun s r t h => by cases h
  | succ n ih =>
    intro s r t h
    obtain ⟨-, -, -, -, hturn⟩ := allocAgain_ok.mp h
    cases hturn with
    | claim =>
      refine trans_of PhysKept (b := s.putNext _ _) ?_ (physKept_claimed _ _ _)
      exact .of_eq rfl rfl
    | own => exact PhysKept.of_eq rfl rfl
    | skip _ _ hagain =>
      have h := ih _ _ _ hagain
      exact ⟨h.freemap, h.phys⟩

theorem within_allocBlockmap (zone bytes : Nat) : Within PhysKept (allocBlockmap zone bytes) :=
  fun _ _ _ h => within_allocAgain _ _ _ _ _ _ (allocBlockmap_ok.mp h).2.2.2

theorem within_allocUndoBigblock (v : Nat) : Within PhysKept (allocUndoBigblock v) := by
  intro s off t h
  obtain ⟨-, -, -, -, rfl⟩ := allocUndoBigblock_ok.mp h
  have h := physKept_claimed (s.bootstrapped v) off ⟨zoneUndoIndex, bigblockSize, 0⟩
  exact ⟨h.freemap, h.phys⟩

theorem within_formatBlockmaps (n : Nat) : Within PhysKept
    (loop n (fun z _ => if isIndexRecord z then formatBlockmap z else pure ()) ()) := by
  refine within_loop fun z _ => ?_
  split
  · exact within_check.bind fun _ => within_modify fun _ => .of_eq rfl rfl
  · exact within_pure _

theorem within_setUndoArray (n off : Nat) : Within PhysKept (setUndoArray n off) :=
  within_modify fun _ => .of_eq rfl rfl

theorem within_formatUndomap (v : Nat) (undoBuffer : Int) :
    Within PhysKept (formatUndomap v undoBuffer) := by
  unfold formatUndomap
  refine within_check.bind fun _ => within_get.bind fun fs => ?_
  refine (within_modify fun s => ?_).bind fun _ => within_check.bind fun _ => ?_
  · exact .of_eq rfl rfl
  refine (within_loop fun n _ => ?_).bind fun _ => within_loop fun i _ => ?_
  · split
    · exact (within_allocUndoBigblock v).bind fun off => within_setUndoArray n off
    · exact within_setUndoArray n unavail
  · exact within_modify fun _ => .of_eq rfl rfl

theorem within_formatRootDirectory (crc : NodeCrc) : Within PhysKept (formatRootDirectory crc) := by
  unfold formatRootDirectory
  refine (within_allocBlockmap _ _).bind fun _ => (within_allocBlockmap _ _).bind fun _ => ?_
  refine (within_allocBlockmap _ _).bind fun _ => ?_
  refine (within_modify fun s => ?_).bind fun _ => within_pure _
  exact .of_eq rfl rfl

theorem Initialized.fresh (h : Initialized s v count t) (hwv : w ≠ v) (hs : s.Fresh w) :
    t.Fresh w := by
  intro i hi
  have hsec : t.section1 w i = s.section1 w i := by rw [Fs.section1, h.freemap, Fs.section1]
  rw [hsec, h.others _ fun j hj heq => hwv (section1_inj s hi hj heq).1]
  exact hs i hi

theorem countFreemap_ok {n : Nat} : countFreemap v s = .ok (n, t) ↔
    (zoneDecode (s.vols v).freeOff = 2 ∧ zoneDecode (s.vols v).freeEnd = 2 ∧
      (s.vols v).freeOff < (s.vols v).freeEnd) ∧
    n = (List.range (iterations (rawBuffer v 0) (layer2Align (s.vols v).freeEnd)
      bigblockSize)).countP (fun i => decide
        (¬ rawBuffer v 0 + i * bigblockSize < rawBuffer v 0 + (if v = 0 then bigblockSize else 0)
          + sections v (s.vols v).freeEnd * bigblockSize ∧
        rawBuffer v 0 + i * bigblockSize < (s.vols v).freeEnd)) ∧ t = s := by
  simp only [countFreemap, bind_ok, get_ok, assertVolumeOffset_ok, pure_ok]
  constructor
  · rintro ⟨_, _, ⟨rfl, rfl⟩, _, _, ⟨hroom, rfl⟩, rfl, rfl⟩
    exact ⟨hroom, rfl, rfl⟩
  · rintro ⟨hroom, rfl, rfl⟩
    exact ⟨_, _, ⟨rfl, rfl⟩, (), _, ⟨hroom, rfl⟩, rfl, rfl⟩

/-- Where `format_volume` puts the two ends of what `bootstrap_bigblock` hands out. -/
theorem layoutVolume_spec {c : Config} {size : Nat} (h : layoutVolume c v size s = .ok (u, t)) :
    PhysKept s t ∧ (t.vols v).freeOff = rawBuffer v 0 ∧
      ∃ k, k * bigblockSize < 2 ^ 52 ∧ (t.vols v).freeEnd = rawBuffer v 0 + k * bigblockSize := by
  simp only [layoutVolume, bind_ok, check_ok, setVolume_ok] at h
  obtain ⟨_, _, ⟨-, rfl⟩, _, _, ⟨hbytes, rfl⟩, rfl⟩ := h
  rw [Fs.putVolume_vols, Function.update_self]
  generalize (_ : Int).bmod (2 ^ 64) = bytes at hbytes
  have hlt : bytes.toNat / bigblockSize * bigblockSize < 2 ^ 52 := by
    rw [bigblockSize_eq]
    omega
  refine ⟨.of_eq rfl rfl, rfl, bytes.toNat / bigblockSize, hlt, ?_⟩
  change rawBuffer v _ = rawBuffer v 0 + _
  rw [rawBuffer, rawBuffer, Nat.mod_eq_of_lt hlt, Nat.zero_mod, Nat.add_zero]

/-- Formatting a volume leaves the entries of the volumes after it unused. -/
theorem formatVolume_fresh {crc : NodeCrc} {c : Config} {size : Nat} (hv : v < 256)
    (hs : v ≠ 0 → ∀ w, v ≤ w → w < 256 → s.Fresh w)
    (h : formatVolume crc c v size s = .ok (u, t)) : ∀ w, v < w → w < 256 → t.Fresh w := by
  intro w hvw hw
  obtain ⟨_, s1, hlayout, h⟩ := bind_ok.mp h
  obtain ⟨hkept, -, k, hk, hend⟩ := layoutVolume_spec hlayout
  by_cases hv0 : v = 0
  · subst hv0
    rw [if_pos rfl] at h
    simp only [formatRootVolume, bind_ok, check_ok, get_ok, modify_ok] at h
    obtain ⟨_, _, hcount, _, _, ⟨-, rfl⟩, _, s2, hformat, _, t1, ⟨-, ht1⟩, _, t2, ⟨-, ht2⟩, n, s3, hinit,
      _, _, rfl, _, s4, hmaps, _, s5, hundo, _, t3, ⟨-, ht3⟩, _, t4, ⟨-, ht4⟩, _, _, rfl, root, s6,
      hroot, rfl⟩ := h
    obtain rfl := (ht2.trans ht1).symm
    obtain rfl := (ht4.trans ht3).symm
    obtain rfl := (countFreemap_ok.mp hcount).2.2.symm
    obtain ⟨hvol, hfresh⟩ := formatFreemap_spec hformat
    have hend2 : (s2.vols 0).freeEnd = rawBuffer 0 0 + k * bigblockSize := by rw [hvol, ← hend]
    have hw3 : s3.Fresh w :=
      (initializeFreemap_spec hv (hfresh 0 hv) hend2 hk hinit).fresh hvw.ne' (hfresh w hw)
    have hw4 : s4.Fresh w := (within_formatBlockmaps _ _ _ _ hmaps).fresh hw3
    have hw5 : s5.Fresh w := (within_formatUndomap _ _ _ _ _ hundo).fresh hw4
    have hw6 : s6.Fresh w := (within_formatRootDirectory _ _ _ _ hroot).fresh hw5
    exact hw6
  · rw [if_neg hv0] at h
    simp only [bind_ok, modify_ok] at h
    obtain ⟨n, s2, hinit, rfl⟩ := h
    have hfresh : ∀ w, v ≤ w → w < 256 → s1.Fresh w := fun w hvw hw => hkept.fresh (hs hv0 w hvw hw)
    have hw2 := (initializeFreemap_spec hv (hfresh v le_rfl hv) hend hk hinit).fresh hvw.ne'
      (hfresh w hvw.le hw)
    exact hw2

/-- While the volumes are formatted in order, the entries of those that are left are not in use. -/
theorem fresh_run {crc : NodeCrc} {c : Config} {sizes : Nat → Nat} (hv : v < 256) (hv0 : v ≠ 0)
    (h : loop v (fun w _ => formatVolume crc c w (sizes w)) () s = .ok (u, t)) :
    ∀ w, v ≤ w → w < 256 → t.Fresh w := by
  have hP := loop_inv (P := fun n _ (t : Fs) => n ≠ 0 → ∀ w, n ≤ w → w < 256 → t.Fresh w)
    (fun h => absurd rfl h)
    (fun i hi _ _ _ _ hP hbody _ => formatVolume_fresh (by omega) hP hbody) h
  exact hP hv0

end

/-! ## Formatting that completes -/

theorem zoneDecode_rawBuffer (v : Nat) : zoneDecode (rawBuffer v 0) = 2 := by
  rw [zoneDecode, rawBuffer]
  omega

section

variable {s : Fs} {v j k : Nat}

theorem zoneDecode_block (hk : k * bigblockSize < 2 ^ 52) :
    zoneDecode (rawBuffer v 0 + k * bigblockSize) = 2 := by
  rw [zoneDecode, rawBuffer]
  omega

theorem formatFreemap_completes (hoff : (s.vols 0).freeOff = rawBuffer 0 0)
    (hend : (s.vols 0).freeEnd = rawBuffer 0 0 + k * bigblockSize) (hk : k * bigblockSize < 2 ^ 52)
    (hroom : 0 < k) : ∃ t, formatFreemap 0 s = .ok ((), t) := by
  obtain ⟨_, t, hloop, -⟩ : ∃ u t, loop radix1 (fun i _ => setLayer1
      ((s.vols 0).freeOff + i * 32) ⟨unavail, 0⟩) () (s.bootstrapped 0) = .ok (u, t) ∧ True :=
    loop_run (P := fun _ _ _ => True) trivial
      fun i _ _ s _ => ⟨(), _, setLayer1_ok.mpr rfl, trivial⟩
  have hboot : bootstrapBigblock 0 s = .ok ((s.vols 0).freeOff, s.bootstrapped 0) := by
    refine bootstrapBigblock_ok.mpr ⟨⟨?_, ?_, ?_⟩, rfl, rfl⟩
    · rw [hoff, zoneDecode_rawBuffer]
    · rw [hend, zoneDecode_block hk]
    · rw [hoff, hend, bigblockSize_eq]
      omega
  exact ⟨_, bind_ok.mpr ⟨(), s, check_ok.mpr ⟨rfl, rfl⟩, bind_ok.mpr ⟨_, _, hboot,
    bind_ok.mpr ⟨_, t, hloop, modify_ok.mpr rfl⟩⟩⟩⟩

theorem fillLayer1_completes {phys : Nat} (h : (s.layer1At phys).phys ≠ unavail) :
    ∃ c t, fillLayer1 v phys s = .ok (c, t) := by
  obtain ⟨c, t, hfill, -⟩ : ∃ c t, fillSection (s.vols v) (s.layer1At phys) phys s = .ok (c, t) ∧
      True :=
    loop_run (P := fun _ _ _ => True) trivial fun i _ n s _ => ⟨_, _, bind_ok.mpr
      ⟨(), _, setLayer2_ok.mpr rfl, pure_ok.mpr ⟨rfl, rfl⟩⟩, trivial⟩
  exact ⟨c, _, bind_ok.mpr ⟨s, s, get_ok.mpr ⟨rfl, rfl⟩, bind_ok.mpr ⟨(), s, check_ok.mpr ⟨h, rfl⟩,
    bind_ok.mpr ⟨c, t, hfill, bind_ok.mpr ⟨(), _, setLayer1_ok.mpr rfl, pure_ok.mpr ⟨rfl, rfl⟩⟩⟩⟩⟩⟩

/-- `initialize_freemap` completes when there is room for the layer 2 arrays. -/
theorem initializeFreemap_completes (hv : v < 256) (hs : s.Fresh v)
    (hoff : (s.vols v).freeOff = rawBuffer v 0 + j * bigblockSize)
    (hend : (s.vols v).freeEnd = rawBuffer v 0 + k * bigblockSize) (hk : k * bigblockSize < 2 ^ 52)
    (hroom : j < k ∧ j + sections v (s.vols v).freeEnd ≤ k) :
    ∃ n t, initializeFreemap v s = .ok (n, t) := by
  have hle : sections v (s.vols v).freeEnd ≤ 1024 := hend ▸ (sections_spec hk).1
  have hblock : ∀ i, j + i < k → zoneDecode ((s.vols v).freeOff + i * bigblockSize) = 2 ∧
      (s.vols v).freeOff + i * bigblockSize < (s.vols v).freeEnd := by
    intro i hi
    rw [hoff, hend, zoneDecode, rawBuffer]
    rw [bigblockSize_eq] at hk ⊢
    omega
  have hend2 : zoneDecode (s.vols v).freeEnd = 2 := by rw [hend, zoneDecode_block hk]
  obtain ⟨_, s1, hloop1, hpre⟩ : ∃ u s1, loop (sections v (s.vols v).freeEnd)
      (fun i _ => preallocateLayer2 v (blockOf v i 0)) () s = .ok (u, s1) ∧
        Preallocated s v (sections v (s.vols v).freeEnd) s1 := by
    refine loop_run (P := fun n _ t => Preallocated s v n t) (.start s v) fun i hi _ t hP => ?_
    have hroom' := hblock i (by omega)
    have hstep : preallocateLayer2 v (blockOf v i 0) t = .ok ((), _) :=
      (preallocateLayer2_ok hv (by omega) (hP.fresh hs (by omega))).mpr
        ⟨by rw [hP.vol]; exact ⟨hroom'.1, hend2, hroom'.2⟩, rfl⟩
    exact ⟨(), _, hstep, hP.step hv (by omega) hs hstep⟩
  obtain ⟨n, t, hloop2, -⟩ : ∃ n t, loop (sections v (s.vols v).freeEnd) (fun i count => do
      let n ← fillLayer1 v (blockOf v i 0)
      pure (count + n)) 0 s1 = .ok (n, t) ∧
        VolumeFilled s1 v (s.vols v).freeOff (sections v (s.vols v).freeEnd) n t := by
    refine loop_run (P := fun n count t => VolumeFilled s1 v (s.vols v).freeOff n count t)
      (.start s1 v _) fun i hi count t hQ => ?_
    have hphys : (s1.layer1 (s1.section1 v i)).phys = (s.vols v).freeOff + i * bigblockSize := by
      rw [hpre.section1, hpre.done i hi]
    have hl1 : (t.layer1At (blockOf v i 0)).phys = (s.vols v).freeOff + i * bigblockSize := by
      rw [Fs.layer1At, layer1Offset_blockOf t hv (by omega) (by decide), Fs.section1, hQ.freemap,
        hQ.phys, ← hphys, Fs.section1]
    have hused : (t.layer1At (blockOf v i 0)).phys ≠ unavail := by
      have := (hblock i (by omega)).1
      rw [hl1, unavail]
      rw [zoneDecode] at this
      omega
    obtain ⟨c, t', hfill⟩ := fillLayer1_completes (v := v) hused
    exact ⟨_, _, bind_ok.mpr ⟨c, t', hfill, pure_ok.mpr ⟨rfl, rfl⟩⟩,
      hQ.step hv (by omega) hphys hfill⟩
  have hassert : assertVolumeOffset (s.vols v) s = .ok ((), s) := by
    have h0 := hblock 0 (by omega)
    rw [Nat.zero_mul, Nat.add_zero] at h0
    exact assertVolumeOffset_ok.mpr ⟨⟨h0.1, hend2, h0.2⟩, rfl⟩
  have hphys : ∀ i, rawBuffer v 0 + i * layer2Span = blockOf v i 0 := by
    intro i
    rw [blockOf, Nat.zero_mul, Nat.add_zero]
  simp only [initializeFreemap, hphys]
  exact ⟨n, t, bind_ok.mpr ⟨s, s, get_ok.mpr ⟨rfl, rfl⟩, bind_ok.mpr ⟨(), s, hassert,
    bind_ok.mpr ⟨(), s1, hloop1, hloop2⟩⟩⟩⟩

end

/-! ## The announced number -/

theorem initializeFreemap_room {s t : Fs} {v n : Nat} (h : initializeFreemap v s = .ok (n, t)) :
    zoneDecode (s.vols v).freeOff = 2 ∧ zoneDecode (s.vols v).freeEnd = 2 ∧
      (s.vols v).freeOff < (s.vols v).freeEnd := by
  simp only [initializeFreemap, bind_ok, get_ok, assertVolumeOffset_ok] at h
  obtain ⟨_, _, ⟨rfl, rfl⟩, _, _, ⟨hroom, -⟩, -⟩ := h
  exact hroom

theorem Volume.isFree_iff (vol : Volume) (off : Nat) :
    vol.isFree off = true ↔ ¬ off < vol.freeOff ∧ off < vol.freeEnd := by
  unfold Volume.isFree initialEntry
  split_ifs <;> simp_all [zoneFreemapIndex, zoneUnavailIndex]

/-- A run of newfs_hammer up to volume `v`, and the first steps for that volume. -/
structure FormatRun (crc : NodeCrc) (c : Config) (sizes : Nat → Nat) (v : Nat) (s0 s1 s2 s3 : Fs)
    (n : Nat) : Prop where
  before : ∃ s, loop v (fun w _ => formatVolume crc c w (sizes w)) () s0 = .ok ((), s) ∧
    layoutVolume c v (sizes v) s = .ok ((), s1)
  format : (if v = 0 then formatFreemap 0 else pure ()) s1 = .ok ((), s2)
  init : initializeFreemap v s2 = .ok (n, s3)

/-- `count_freemap` announces for every volume the number of big-blocks that `initialize_freemap`
    returns, which is the number of layer 2 entries of the volume it leaves free. -/
theorem count_freemap_announces {crc : NodeCrc} {c : Config} {sizes : Nat → Nat} {v n : Nat}
    {s0 s1 s2 s3 : Fs} (hv : v < 256) (h : FormatRun crc c sizes v s0 s1 s2 s3 n) :
    countFreemap v s1 = .ok (n, s1) ∧
      n = (List.range (sections v (s1.vols v).freeEnd * radix2)).countP fun x =>
        (s3.layer2At (rawBuffer v 0 + x * bigblockSize)).zone = 0 := by
  obtain ⟨⟨s, hrun, hlayout⟩, hformat, hinit⟩ := h
  obtain ⟨hkept, hoff, k, hk, hend⟩ := layoutVolume_spec hlayout
  -- what the volume has in front of the layer 2 arrays, and that its entries are not in use
  have hs2 : s2.Fresh v ∧ s2.vols v = { s1.vols v with
      freeOff := rawBuffer v 0 + (if v = 0 then bigblockSize else 0) } := by
    by_cases hv0 : v = 0
    · subst hv0
      rw [if_pos rfl] at hformat ⊢
      obtain ⟨hvol, hfresh⟩ := formatFreemap_spec hformat
      exact ⟨hfresh 0 hv, by rw [hvol, hoff]⟩
    · rw [if_neg hv0] at hformat ⊢
      obtain ⟨-, rfl⟩ := pure_ok.mp hformat
      refine ⟨hkept.fresh (fresh_run hv hv0 hrun v le_rfl hv), ?_⟩
      rw [Nat.add_zero, ← hoff]
  obtain ⟨hfresh, hvol⟩ := hs2
  have hend2 : (s2.vols v).freeEnd = (s1.vols v).freeEnd := by rw [hvol]
  have hi := initializeFreemap_spec hv hfresh (hend2.trans hend) hk hinit
  have hfree : ∀ off, (s3.vols v).isFree off = decide
      (¬ off < rawBuffer v 0 + (if v = 0 then bigblockSize else 0)
        + sections v (s1.vols v).freeEnd * bigblockSize ∧ off < (s1.vols v).freeEnd) := by
    intro off
    rw [Bool.eq_iff_iff, Volume.isFree_iff, decide_eq_true_iff, hi.vol, hend2, hvol]
  have hcount := hi.count
  rw [hend2] at hcount
  refine ⟨countFreemap_ok.mpr ⟨?_, ?_, rfl⟩, ?_⟩
  · have hroom := initializeFreemap_room hinit
    rw [hvol] at hroom
    refine ⟨?_, hroom.2.1, ?_⟩
    · rw [hoff, zoneDecode_rawBuffer]
    · rw [hoff]
      exact (Nat.le_add_right _ _).trans_lt hroom.2.2
  · rw [hcount, hend, (sections_spec hk).2]
    refine List.countP_congr fun x _ => ?_
    rw [hfree, hend]
  · rw [hcount]
    refine List.countP_congr fun x hx => ?_
    rw [hi.entries x (hend2 ▸ List.mem_range.mp hx)]
    rfl

/-- Volumes that nothing was written to. -/
def blank : Fs where
  version := 0
  vols _ := ⟨0, 0, 0, 0⟩
  freemap := 0
  next _ := 0
  undoAlloc := 0
  undoArray _ := 0
  btreeRoot := 0
  freeBigblocks := 0
  bigblocks := 0
  layer1 _ := ⟨0, 0⟩
  layer2 _ := ⟨0, 0, 0⟩
  nodes _ := ⟨'L', [], 0⟩
  heads _ := ⟨0, 0, 0⟩

/-- A volume of three big-blocks: one for layer 1, one for layer 2, and one that stays free. -/
theorem count_freemap_announces_three : ∃ s1 s2 s3 n,
    FormatRun (fun _ _ _ => 0) ⟨true, 0, 0, 0, 0, 7⟩ (fun _ => 3 * bigblockSize) 0 blank s1 s2 s3 n ∧
      countFreemap 0 s1 = .ok (n, s1) := by
  obtain ⟨_, s1, hlayout, hvol⟩ : ∃ u s1, layoutVolume ⟨true, 0, 0, 0, 0, 7⟩ 0 (3 * bigblockSize) blank =
      .ok (u, s1) ∧ s1.vols 0 = ⟨0, 25165824, rawBuffer 0 0, rawBuffer 0 0 + 3 * bigblockSize⟩ :=
    ⟨_, _, rfl, rfl⟩
  have hk : 3 * bigblockSize < 2 ^ 52 := by decide
  obtain ⟨s2, hformat⟩ := formatFreemap_completes (s := s1) (by rw [hvol]) (by rw [hvol]) hk
    (by decide)
  obtain ⟨hvol2, hfresh⟩ := formatFreemap_spec hformat
  obtain ⟨n, s3, hinit⟩ := initializeFreemap_completes (s := s2) (j := 1) (by decide)
    (hfresh 0 (by decide)) (by rw [hvol2, hvol, Nat.one_mul]) (by rw [hvol2, hvol]) hk
    (by rw [hvol2, hvol]; decide)
  have hrun : FormatRun (fun _ _ _ => 0) ⟨true, 0, 0, 0, 0, 7⟩ (fun _ => 3 * bigblockSize) 0 blank s1 s2
      s3 n := ⟨⟨blank, rfl, hlayout⟩, hformat, hinit⟩
  exact ⟨s1, s2, s3, n, hrun, (count_freemap_announces (by decide) hrun).1⟩

end Lh1.Hammer
