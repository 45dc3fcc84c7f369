/-
  Which histogram entries mirror-read takes as the end of a slice (cmd_mirror.c).

  The array, its number of entries and the index live across the rounds of
  `hammer_cmd_mirror_read`. A round takes the entry behind its index. That entry is one of the last
  `generate_histogram` as long as slices are left. It is not when the range of that call was empty,
  since `generate_histogram` then returns before it writes anything, and it is not in the round
  after a stream was waiting with all slices done: nothing sets `histogram` back, and the index goes
  past the entries.

  The state of a reader has, besides the variables of the source, the set of entries that the last
  call wrote. A call writes an entry if it does not leave it as it was, in whatever array it is
  called with.

  * `generateHistogram_writes_iff`: which entries a call writes.
  * `Slicer.fresh_iff`: what one round takes.
  * `slice_ends_fresh_iff`: over whole runs.
-/
import Lh1.Lib.Run
import Lh1.Hammer.Histogram

namespace Lh1.Hammer.Mirror

open Lib

/-! ## What a call writes -/

section

variable {mrecs : List MrecInfo} {splitupOpt tidBeg tidEnd : Nat} {tidBytes : Nat → Nat}
  {ary ary' : Nat → Slice}

/-- The entries that a call of `generate_histogram` writes: those that are not left alone in every
    array. -/
def writtenBy (mrecs : List MrecInfo) (splitupOpt tidBeg tidEnd : Nat) : Set Nat :=
  {k | ∃ ary h, generateHistogram mrecs splitupOpt ary tidBeg tidEnd = .ok h ∧ h.ary k ≠ ary k}

variable {h : Hist}

/-- Two histograms with the same entries, up to the last. -/
structure Hist.Agree (h h' : Hist) : Prop where
  res : h.res = h'.res
  ary : ∀ k ≤ h.res, h.ary k = h'.ary k

theorem Hist.Agree.reduceStep {h' : Hist} (ha : h.Agree h') (i : Nat) :
    (h.reduceStep splitupOpt tidBeg tidEnd tidBytes i).Agree
      (h'.reduceStep splitupOpt tidBeg tidEnd tidBytes i) := by
  obtain ⟨res, ary⟩ := h
  obtain ⟨res', ary'⟩ := h'
  obtain ⟨hres, hary⟩ := ha
  obtain rfl : res = res' := hres
  have hlast : ary res = ary' res := hary res le_rfl
  by_cases hfull : splitupOpt ≤ (ary res).bytes
  · rw [reduceStep_full hfull, reduceStep_full (by dsimp only; rwa [← hlast])]
    refine ⟨rfl, fun k hk => ?_⟩
    dsimp only at hk ⊢
    rcases Nat.lt_or_ge res k with hlt | hge
    · obtain rfl : k = res + 1 := by omega
      rw [Function.update_self, Function.update_self]
    · rw [Function.update_of_ne (by omega), Function.update_of_ne (by omega)]
      exact hary k hge
  · rw [reduceStep_open hfull, reduceStep_open (by dsimp only; rwa [← hlast])]
    refine ⟨rfl, fun k hk => ?_⟩
    dsimp only at hk ⊢
    rcases eq_or_ne k res with rfl | hne
    · rw [Function.update_self, Function.update_self, hlast]
    · rw [Function.update_of_ne hne, Function.update_of_ne hne]
      exact hary k hk

theorem reduce_agree (ary ary' : Nat → Slice) (n : Nat) :
    (reduce splitupOpt tidBeg tidEnd tidBytes ary n).Agree
      (reduce splitupOpt tidBeg tidEnd tidBytes ary' n) := by
  induction n with
  | zero =>
    refine ⟨rfl, fun k hk => ?_⟩
    obtain rfl : k = 0 := Nat.le_zero.mp hk
    simp only [reduce, Function.update_self]
  | succ n ih => exact ih.reduceStep _

theorem Hist.Agree.close {h' : Hist} (ha : h.Agree h') (tidEnd : Nat) :
    (h.close tidEnd).Agree (h'.close tidEnd) := by
  have hres := ha.res
  refine ⟨congrArg (· + 1) hres, fun k hk => ?_⟩
  unfold Hist.close at hk ⊢
  dsimp only at hk ⊢
  rcases eq_or_ne k (h.res + 1) with rfl | hne
  · rw [Function.update_self, hres, Function.update_self]
  · rw [Function.update_of_ne hne, Function.update_of_ne (by omega)]
    exact ha.ary k (by omega)

theorem generateHistogram_ok (hlt : tidBeg < tidEnd)
    (hgen : generateHistogram mrecs splitupOpt ary tidBeg tidEnd = .ok h) :
    ∃ tidBytes, h = (reduce splitupOpt tidBeg tidEnd tidBytes ary (histCount - 1)).close tidEnd ∧
      ∀ ary', generateHistogram mrecs splitupOpt ary' tidBeg tidEnd =
        .ok ((reduce splitupOpt tidBeg tidEnd tidBytes ary' (histCount - 1)).close tidEnd) := by
  rw [generateHistogram, if_neg (not_le.mpr hlt)] at hgen
  split at hgen
  · cases hgen
  · next tidBytes hrecs =>
    dsimp only at hgen
    split at hgen
    · next hres =>
      refine ⟨tidBytes, (Except.ok.inj hgen).symm, fun ary' => ?_⟩
      rw [generateHistogram, if_neg (not_le.mpr hlt), hrecs]
      dsimp only
      rw [if_pos]
      exact ((reduce_agree ary ary' _).close tidEnd).res ▸ hres
    · cases hgen

/-- The reduction leaves the entries behind its last one alone. -/
theorem reduce_old (n : Nat) {k : Nat}
    (hk : (reduce splitupOpt tidBeg tidEnd tidBytes ary n).res < k) :
    (reduce splitupOpt tidBeg tidEnd tidBytes ary n).ary k = ary k := by
  induction n with
  | zero => exact Function.update_of_ne (Nat.pos_iff_ne_zero.mp hk) _ _
  | succ n ih =>
    rw [reduce] at hk ⊢
    by_cases hfull : splitupOpt ≤ ((reduce splitupOpt tidBeg tidEnd tidBytes ary n).ary
        (reduce splitupOpt tidBeg tidEnd tidBytes ary n).res).bytes
    · rw [reduceStep_full hfull] at hk ⊢
      dsimp only at hk ⊢
      rw [Function.update_of_ne (by omega)]
      exact ih (by omega)
    · rw [reduceStep_open hfull] at hk ⊢
      dsimp only at hk ⊢
      rw [Function.update_of_ne (by omega)]
      exact ih hk

/-- A call for an empty range writes nothing, and another one the entries up to the last. -/
theorem generateHistogram_writes_iff
    (hgen : generateHistogram mrecs splitupOpt ary tidBeg tidEnd = .ok h) (k : Nat) :
    k ∈ writtenBy mrecs splitupOpt tidBeg tidEnd ↔ tidBeg < tidEnd ∧ k ≤ h.res := by
  by_cases hlt : tidBeg < tidEnd
  · obtain ⟨tidBytes, rfl, hall⟩ := generateHistogram_ok hlt hgen
    have hagree := fun ary' => (@reduce_agree splitupOpt tidBeg tidEnd tidBytes ary ary'
      (histCount - 1)).close tidEnd
    constructor
    · rintro ⟨ary', h', hgen', hne⟩
      obtain rfl := Except.ok.inj ((hall ary').symm.trans hgen')
      refine ⟨hlt, ?_⟩
      by_contra hk
      rw [not_le, (hagree ary').res, Hist.close_res] at hk
      exact hne ((Function.update_of_ne (by omega) _ _).trans (reduce_old _ (by omega)))
    · rintro ⟨-, hk⟩
      -- an array with something else in this place
      generalize (reduce splitupOpt tidBeg tidEnd tidBytes ary (histCount - 1)).close tidEnd = h
        at hk hagree
      refine ⟨fun _ => ⟨(h.ary k).tid + 1, 0⟩, _, hall _, fun heq => ?_⟩
      have htid := congrArg Slice.tid (((hagree _).ary k hk).trans heq)
      exact absurd htid (Nat.lt_succ_self _).ne
  · refine iff_of_false ?_ fun h => hlt h.1
    rintro ⟨ary', h', hgen', hne⟩
    rw [generateHistogram, if_pos (not_lt.mp hlt)] at hgen'
    obtain rfl := Except.ok.inj hgen'
    exact hne rfl

/-- A call for a range that is not empty writes at least two entries. -/
theorem generateHistogram_res (hgen : generateHistogram mrecs splitupOpt ary tidBeg tidEnd = .ok h)
    : 0 < h.res ↔ tidBeg < tidEnd := by
  by_cases hlt : tidBeg < tidEnd
  · obtain ⟨tidBytes, rfl, -⟩ := generateHistogram_ok hlt hgen
    exact ⟨fun _ => hlt, fun _ => Nat.succ_pos _⟩
  · rw [generateHistogram, if_pos (not_lt.mp hlt)] at hgen
    rw [← Except.ok.inj hgen]
    exact ⟨fun h => absurd h (lt_irrefl 0), fun h => absurd h hlt⟩

end

/-! ## Rounds -/

/-- `hammer_cmd_mirror_read` at the label `again`, with the entries that the last call of
    `generate_histogram` wrote. -/
structure Slicer where
  ctl : Control
  written : Set Nat
  /-- It did not return yet. -/
  running : Bool

/-- What a round meets: the reply of the target in two-way mode, the PFS, the records of the
    prescan, the begin TID of the command line or the cycle file, the timer, and how the wait for
    new transactions ends. -/
structure RoundInput where
  target : Option Nat
  pfsd : Pfsd
  mrecs : List MrecInfo
  begTid : Option Nat
  interrupted : Bool
  waits : Bool

inductive ReadStop where
  | assert
  | returned
  deriving DecidableEq

/-- `mirror.tid_beg` when the histogram is generated. -/
def Slicer.tidBeg (r : Slicer) (i : RoundInput) : Nat :=
  max (r.ctl.beginTid i.target) i.pfsd.syncBegTid

/-- A round calls `generate_histogram`. -/
def Slicer.Calls (bulkOpt : Bool) (r : Slicer) : Prop := r.ctl.histogram = false ∧ bulkOpt = false

instance (bulkOpt : Bool) (r : Slicer) : Decidable (r.Calls bulkOpt) :=
  inferInstanceAs (Decidable (_ ∧ _))

/-- A round up to the point where it takes the end of a slice. -/
def Slicer.startup (bulkOpt : Bool) (splitupOpt : Nat) (r : Slicer) (i : RoundInput) :
    Except ReadStop Slicer :=
  match r.ctl.bulkStartup bulkOpt (generateHistogram i.mrecs splitupOpt) (r.tidBeg i)
    i.pfsd.syncEndTid with
  | .error _ => .error .assert
  | .ok c => .ok { r with
      ctl := c
      written :=
        if r.Calls bulkOpt then writtenBy i.mrecs splitupOpt (r.tidBeg i) i.pfsd.syncEndTid
        else r.written }

/-- The entry that is taken as the end of a slice. -/
def Control.taken (c : Control) : Option Nat :=
  if c.streaming ≠ .read ∧ c.histogram then some (c.histindex + 1) else none

/-- How a round goes on behind the slice selection. -/
def Slicer.finish (r : Slicer) (i : RoundInput) (tidBeg : Nat) : Slicer :=
  let (c, tidEnd) := r.ctl.nextSlice i.pfsd.syncEndTid
  let (c, _) := c.settle (i.begTid.getD tidBeg) tidEnd
  { r with
    ctl := c
    running := !i.interrupted && (c.advance = .again || (c.advance = .wait && i.waits)) }

def Slicer.step (bulkOpt : Bool) (splitupOpt : Nat) (r : Slicer) (i : RoundInput) :
    Except ReadStop Slicer :=
  if r.running then
    match r.startup bulkOpt splitupOpt i with
    | .error e => .error e
    | .ok r' => .ok (r'.finish i (r.tidBeg i))
  else .error .returned

def Slicer.init (streaming : Streaming) : Slicer := ⟨Control.init streaming, ∅, true⟩

/-! ## What is taken -/

/-- The end of a slice that a round takes was written by the last call. -/
def Slicer.Fresh (bulkOpt : Bool) (splitupOpt : Nat) (r : Slicer) (i : RoundInput) : Prop :=
  ∀ r', r.startup bulkOpt splitupOpt i = .ok r' → ∀ k, r'.ctl.taken = some k → k ∈ r'.written

/-- There is a slice left: a round that generates the histogram has a range that is not empty, and
    a round that goes on with it is not behind its last entry. -/
def Slicer.SliceLeft (bulkOpt : Bool) (r : Slicer) (i : RoundInput) : Prop :=
  (r.Calls bulkOpt → r.tidBeg i < i.pfsd.syncEndTid) ∧
    (r.ctl.histogram = true → r.ctl.streaming ≠ .read → r.ctl.histindex < r.ctl.histmax)

/-- While a histogram is in use, the last call wrote the entries up to `histmax`, or none. -/
def Slicer.Inv (r : Slicer) : Prop :=
  r.ctl.histogram = true → ∀ k, k ∈ r.written ↔ 0 < r.ctl.histmax ∧ k ≤ r.ctl.histmax

section

variable {bulkOpt : Bool} {splitupOpt : Nat} {r r' : Slicer} {i : RoundInput}

theorem Slicer.startup_calls (hcalls : r.Calls bulkOpt)
    (h : r.startup bulkOpt splitupOpt i = .ok r') :
    ∃ g, generateHistogram i.mrecs splitupOpt r.ctl.ary (r.tidBeg i) i.pfsd.syncEndTid = .ok g ∧
      r'.ctl = ⟨if r.ctl.streaming = .read then .readSlices else r.ctl.streaming, true, 0, g.res,
        g.ary⟩ ∧
      r'.written = writtenBy i.mrecs splitupOpt (r.tidBeg i) i.pfsd.syncEndTid := by
  have hc : r.ctl.histogram = false ∧ bulkOpt = false := hcalls
  unfold Slicer.startup Control.bulkStartup at h
  rw [if_pos hc] at h
  cases hgen : generateHistogram i.mrecs splitupOpt r.ctl.ary (r.tidBeg i) i.pfsd.syncEndTid with
  | error e =>
    rw [hgen] at h
    cases h
  | ok g =>
    rw [hgen] at h
    obtain rfl := Except.ok.inj h
    exact ⟨g, rfl, rfl, if_pos hcalls⟩

/-- With a new histogram the first slice ends at the second entry. -/
theorem Slicer.startup_taken (hcalls : r.Calls bulkOpt)
    (h : r.startup bulkOpt splitupOpt i = .ok r') : r'.ctl.taken = some 1 := by
  obtain ⟨g, -, hctl, -⟩ := Slicer.startup_calls hcalls h
  rw [hctl, Control.taken, if_pos]
  refine ⟨?_, rfl⟩
  dsimp only
  split
  · decide
  · assumption

theorem Slicer.startup_goes_on (hcalls : ¬ r.Calls bulkOpt) :
    r.startup bulkOpt splitupOpt i = .ok r := by
  have hc : ¬ (r.ctl.histogram = false ∧ bulkOpt = false) := hcalls
  unfold Slicer.startup Control.bulkStartup
  rw [if_neg hc]
  dsimp only
  rw [if_neg hcalls]

theorem Slicer.Inv.startup (hinv : r.Inv) (h : r.startup bulkOpt splitupOpt i = .ok r') :
    r'.Inv := by
  by_cases hcalls : r.Calls bulkOpt
  · obtain ⟨g, hgen, hctl, hwritten⟩ := Slicer.startup_calls hcalls h
    intro _ k
    rw [hwritten, hctl, generateHistogram_writes_iff hgen, generateHistogram_res hgen]
  · rw [Slicer.startup_goes_on hcalls] at h
    exact Except.ok.inj h ▸ hinv

theorem Control.nextSlice_kept (c : Control) (tidEnd : Nat) :
    (c.nextSlice tidEnd).1.histogram = c.histogram ∧
      (c.nextSlice tidEnd).1.histmax = c.histmax := by
  unfold Control.nextSlice
  split <;> exact ⟨rfl, rfl⟩

theorem Control.settle_kept {c : Control} {tidBeg tidEnd : Nat}
    (h : (c.settle tidBeg tidEnd).1.histogram = true) : (c.settle tidBeg tidEnd).1 = c := by
  unfold Control.settle at h ⊢
  split at h
  · cases h
  · next hlt => rw [if_neg hlt]

theorem Slicer.Inv.finish (hinv : r.Inv) (tidBeg : Nat) : (r.finish i tidBeg).Inv := by
  intro hhist k
  have hkept := r.ctl.nextSlice_kept i.pfsd.syncEndTid
  have hctl : (r.finish i tidBeg).ctl = (r.ctl.nextSlice i.pfsd.syncEndTid).1 :=
    Control.settle_kept hhist
  rw [hctl] at hhist ⊢
  rw [hkept.2]
  exact hinv (hkept.1 ▸ hhist) k

theorem Slicer.Inv.step (hinv : r.Inv) (h : r.step bulkOpt splitupOpt i = .ok r') : r'.Inv := by
  unfold Slicer.step at h
  split at h
  · split at h
    · cases h
    · next r1 h1 =>
      obtain rfl := Except.ok.inj h
      exact (hinv.startup h1).finish _
  · cases h

/-- What a round takes is fresh iff there is a slice left. -/
theorem Slicer.fresh_iff (hinv : r.Inv) :
    r.Fresh bulkOpt splitupOpt i ↔ r.SliceLeft bulkOpt i := by
  by_cases hcalls : r.Calls bulkOpt
  · -- the entry behind the first one of a new histogram
    have hright : r.SliceLeft bulkOpt i ↔ r.tidBeg i < i.pfsd.syncEndTid :=
      ⟨fun h => h.1 hcalls, fun h => ⟨fun _ => h, fun h1 => absurd (hcalls.1.symm.trans h1) (by decide)⟩⟩
    rw [hright]
    constructor
    · intro hfresh
      by_contra hempty
      have hstart : ∃ r', r.startup bulkOpt splitupOpt i = .ok r' := by
        have hc : r.ctl.histogram = false ∧ bulkOpt = false := hcalls
        unfold Slicer.startup Control.bulkStartup generateHistogram
        rw [if_pos hc, if_pos (not_lt.mp hempty)]
        exact ⟨_, rfl⟩
      obtain ⟨r', h⟩ := hstart
      obtain ⟨g, hgen, -, hwritten⟩ := Slicer.startup_calls hcalls h
      have := hfresh r' h 1 (Slicer.startup_taken hcalls h)
      rw [hwritten, generateHistogram_writes_iff hgen] at this
      exact hempty this.1
    · intro hlt r' h k hk
      obtain ⟨g, hgen, -, hwritten⟩ := Slicer.startup_calls hcalls h
      obtain rfl := Option.some.inj ((Slicer.startup_taken hcalls h).symm.trans hk)
      rw [hwritten, generateHistogram_writes_iff hgen]
      exact ⟨hlt, (generateHistogram_res hgen).mpr hlt⟩
  · -- the entry behind the index
    have hstart : r.startup bulkOpt splitupOpt i = .ok r := Slicer.startup_goes_on hcalls
    have hleft : r.Fresh bulkOpt splitupOpt i ↔ ∀ k, r.ctl.taken = some k → k ∈ r.written :=
      ⟨fun h => h r hstart, fun h r' h' => Except.ok.inj (hstart.symm.trans h') ▸ h⟩
    have hright : r.SliceLeft bulkOpt i ↔
        (r.ctl.histogram = true → r.ctl.streaming ≠ .read → r.ctl.histindex < r.ctl.histmax) :=
      ⟨fun h => h.2, fun h => ⟨fun h1 => absurd h1 hcalls, h⟩⟩
    rw [hleft, hright]
    constructor
    · intro h hhist hread
      have := h _ (if_pos ⟨hread, hhist⟩)
      exact ((hinv hhist _).mp this).2
    · intro h k hk
      unfold Control.taken at hk
      split at hk
      · next ht =>
        obtain rfl := Option.some.inj hk
        have := h ht.2 ht.1
        exact (hinv ht.2 _).mpr ⟨by omega, this⟩
      · cases hk

end

/-- In a run of mirror-read or of mirror-read-stream all ends of slices that are taken are entries
    of the last histogram iff every round finds a slice left. -/
theorem slice_ends_fresh_iff (bulkOpt : Bool) (splitupOpt : Nat) (streaming : Streaming)
    (rounds : List RoundInput) :
    Along (Slicer.step bulkOpt splitupOpt) (Slicer.Fresh bulkOpt splitupOpt) (.init streaming)
        rounds ↔
      Along (Slicer.step bulkOpt splitupOpt) (Slicer.SliceLeft bulkOpt) (.init streaming) rounds := by
  have hinit : (Slicer.init streaming).Inv := fun h => nomatch (h : false = true)
  have hkeeps : ∀ P : Slicer → RoundInput → Prop, ∀ r i r', r.Inv → P r i →
      r.step bulkOpt splitupOpt i = .ok r' → r'.Inv := fun _ _ _ _ h _ hstep => h.step hstep
  constructor
  · exact Along.mono (hkeeps _) (fun _ _ h hP => (Slicer.fresh_iff h).mp hP) rounds _ hinit
  · exact Along.mono (hkeeps _) (fun _ _ h hP => (Slicer.fresh_iff h).mpr hP) rounds _ hinit

/-- mirror-read in two-way mode, when the target has everything already: the end of its first
    slice was never written. -/
theorem slice_end_unwritten :
    ¬ Along (Slicer.step false 0) (Slicer.Fresh false 0) (.init .read)
      [⟨some 100, ⟨0, 100⟩, [], none, false, false⟩] := by
  intro h
  obtain ⟨r', hr', htaken, hwritten⟩ : ∃ r', (Slicer.init .read).startup false 0
      ⟨some 100, ⟨0, 100⟩, [], none, false, false⟩ = .ok r' ∧ r'.ctl.taken = some 1 ∧
        r'.written = writtenBy [] 0 101 100 := ⟨_, rfl, rfl, rfl⟩
  have hgen : generateHistogram [] 0 (fun _ => ⟨0, 0⟩) 101 100 = .ok ⟨0, fun _ => ⟨0, 0⟩⟩ := rfl
  have htake := h.1 r' hr' 1 htaken
  rw [hwritten, generateHistogram_writes_iff hgen] at htake
  exact absurd htake.1 (by decide)

end Lh1.Hammer.Mirror
