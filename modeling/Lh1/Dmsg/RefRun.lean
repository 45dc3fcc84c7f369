/-
  Reference counts over whole runs of the transaction layer.

  Every step of the machine keeps `Inv`, where a frame on the stack that is going to drop a
  reference has it in hand. From the empty process on, the count of every state is therefore
  what the data structures account for, plus the references lost when peers opened
  transactions. So the counts, of every `state0` too, are exact precisely in the runs in which no
  peer did.
-/
import Lh1.Dmsg.Refs

namespace Lh1.Dmsg

open Lh1.Lib

variable {env : Env} {e : Addr → ℤ} {L : List Addr} {t t' : Trans} {a b p : Addr}
  {s ps : DmsgState} {i m : Nat} {x : TransMsg} {u : Unit} {fs : List Frame}

/-! ## Calls in progress -/

/-- The references that calls in progress are going to drop. -/
def inHand (fs : List Frame) (a : Addr) : ℤ := (fs.count (.drop a) : ℤ)

theorem inHand_nonneg (fs : List Frame) (a : Addr) : 0 ≤ inHand fs a := Int.natCast_nonneg _

theorem inHand_append (fs gs : List Frame) : inHand (fs ++ gs) = inHand fs + inHand gs := by
  funext a
  simp [inHand]

theorem inHand_cons (f : Frame) (fs : List Frame) : inHand (f :: fs) = inHand [f] + inHand fs :=
  inHand_append [f] fs

@[simp] theorem inHand_nil : inHand [] = 0 := rfl

@[simp] theorem inHand_drop (a : Addr) : inHand [.drop a] = one a := by
  funext b
  simp only [inHand, one, List.count_singleton, beq_iff_eq, Frame.drop.injEq, @eq_comm _ a b]
  split <;> rfl

theorem inHand_other {f : Frame} (h : ∀ a, f ≠ .drop a) : inHand [f] = 0 := by
  funext b
  simp [inHand, h b]

/-- Aborts are for transactions, never for `state0`. -/
def Frame.Ok : Frame → Prop
  | .abort a | .abortSim a | .dying a | .writeDying a | .simulate a true => ∃ n, a = .dyn n
  | _ => True

/-- What a function that leaves the calls `fs` to be made does to the counts. -/
def Leaves (e : Addr → ℤ) (L : List Addr) (fs : List Frame) (t : Trans) : Prop :=
  Inv none (inHand fs + e) L t ∧ ∀ f ∈ fs, f.Ok

/-- The calls to be made drop nothing. -/
theorem Leaves.keep (hI : Inv none e L t) (hd : ∀ a, .drop a ∉ fs) (hok : fs.Forall Frame.Ok) :
    Leaves e L fs t := by
  refine ⟨hI.of_eq fun b => ?_, List.forall_iff_forall_mem.mp hok⟩
  rw [Pi.add_apply, inHand, List.count_eq_zero.mpr (hd b), Nat.cast_zero, zero_add]

theorem Leaves.nil (hI : Inv none e L t) : Leaves e L [] t :=
  .keep hI (fun _ => List.not_mem_nil) trivial

/-- A function that leaves no calls, behind `f`. -/
theorem Leaves.last {α : Type} {f : TransM α} (h : (f >>= fun _ => pure []) t = .ok (fs, t'))
    (hf : ∀ r t1, f t = .ok (r, t1) → Inv none e L t1) : Leaves e L fs t' := by
  obtain ⟨r, t1, h1, h2⟩ := bind_ok_iff.mp h
  obtain ⟨rfl, rfl⟩ := pure_ok_iff.mp h2
  exact .nil (hf r _ h1)

/-- A state that is dying or being aborted is not `state0`. -/
theorem Inv.dyn_of_flags (hI : Inv none e L t) (hs : t.heap.get a = some s)
    (hf : s.dying = true ∨ s.aborting = true) : ∃ n, a = .dyn n := by
  cases a with
  | dyn n => exact ⟨n, rfl⟩
  | root i =>
    obtain ⟨-, hd, ha, -⟩ := (hI.shape _ s hs).ofRoot i rfl
    rcases hf with h | h
    · rw [hd] at h
      cases h
    · rw [ha] at h
      cases h

/-- An update of the flags of a transaction. -/
theorem Inert.of_dyn {n : Nat} {s s' : DmsgState} (h : s' = { s with
    dying := s'.dying, aborting := s'.aborting }) : Inert (.dyn n) s s' := by
  rw [h]
  exact ⟨⟨rfl, rfl, rfl, rfl, rfl, rfl, fun _ hc => by cases hc⟩, rfl, rfl⟩

/-! ## Sending -/

theorem Inv.txPrepare (hI : Inv none e L t) (h : txPrepare m x t = .ok (u, t')) :
    Inv none e L t' := by
  simp only [Dmsg.txPrepare, bind_ok_iff, deref_ok] at h
  obtain ⟨s, t, ⟨-, rfl⟩, _, t1, h1, h2⟩ := h
  have hI1 := hI.updMsg h1 fun _ => rfl
  rcases whenT_ok.mp h2 with ⟨-, h2⟩ | ⟨-, rfl⟩
  · refine hI1.update_inert h2 fun s _ => Inert.of_fields ?_
    split <;> rfl
  · exact hI1

theorem Inv.msgWrite (hI : Inv none e L t) (h : dmsgMsgWrite env m t = .ok (fs, t')) :
    Leaves e L fs t' := by
  simp only [dmsgMsgWrite, bind_ok_iff, getMsg_ok, deref_ok] at h
  obtain ⟨x, t, ⟨-, rfl⟩, s0, t, ⟨-, rfl⟩, _, t1, h1, _, t2, h2, s, t2, ⟨hs, rfl⟩, h⟩ := h
  have hI2 : Inv none e L t2 := by
    rcases whenT_ok.mp h2 with ⟨-, h2⟩ | ⟨-, rfl⟩
    · exact (hI.lock h1).txPrepare h2
    · exact hI.lock h1
  split at h
  · simp only [bind_ok_iff, pure_ok_iff] at h
    obtain ⟨_, t3, h3, rfl, rfl⟩ := h
    exact .nil (hI2.msgFree h3)
  · split at h
    · simp only [bind_ok_iff, pure_ok_iff] at h
      obtain ⟨_, t3, h3, rfl, rfl⟩ := h
      refine ⟨(hI2.hold h3).of_eq fun b => ?_, ?_⟩
      · simp only [inHand, one, Pi.add_apply, List.count_cons, List.count_nil, beq_iff_eq,
          reduceCtorEq, if_false, Frame.drop.injEq, @eq_comm _ x.state b]
        split_ifs <;> omega
      · obtain ⟨n, hn⟩ := hI2.dyn_of_flags hs (Or.inl ‹_›)
        exact List.forall_iff_forall_mem.mp ⟨trivial, ⟨n, hn⟩, trivial, trivial, trivial⟩
    · obtain ⟨rfl, rfl⟩ := pure_ok_iff.mp h
      exact .keep hI2 (by simp) ⟨trivial, trivial, trivial⟩

section

variable (hI : Inv none e L t) (he : ∀ a, 0 ≤ e a)
include hI he

theorem Inv.cleanuptx (h : dmsgStateCleanuptx i m t = .ok (fs, t')) : Leaves e L fs t' := by
  simp only [dmsgStateCleanuptx, bind_ok_iff, getMsg_ok, deref_ok, check_ok] at h
  obtain ⟨x, t, ⟨-, rfl⟩, s0, t, ⟨hs0, rfl⟩, _, t, ⟨-, rfl⟩, _, t1, h1, _, t2, h2, s, t2,
    ⟨hs, rfl⟩, h⟩ := h
  have hI1 := hI.hold h1
  have hI2 : Inv none (e + one x.state) L t2 := by
    rcases whenT_ok.mp h2 with ⟨-, h2⟩ | ⟨-, rfl⟩
    · have hpos : 0 < (e + one x.state) x.state := by
        have := he x.state
        simp only [Pi.add_apply, one, if_true]
        omega
      obtain ⟨-, rfl⟩ := update_ok.mp h1
      exact (hI1.txClose hpos (Store.get_modify_some _ hs0) h2).1
    · exact hI1
  split at h
  · rename_i hc
    simp only [bind_ok_iff, pure_ok_iff] at h
    obtain ⟨_, t3, h3, rfl, rfl⟩ := h
    rw [Bool.and_eq_true, Bool.or_eq_true] at hc
    obtain ⟨n, hn⟩ := hI2.dyn_of_flags hs (hc.1.elim Or.inr Or.inl)
    rw [hn] at h3
    refine ⟨(hI2.update_inert h3 fun s _ => Inert.of_dyn rfl).of_eq fun b => ?_, ?_⟩
    · simp only [inHand, one, Pi.add_apply, List.count_cons, List.count_nil, beq_iff_eq,
        reduceCtorEq, if_false, Frame.drop.injEq, @eq_comm _ x.state b]
      split_ifs <;> omega
    · exact List.forall_iff_forall_mem.mp ⟨⟨n, hn⟩, trivial⟩
  · obtain ⟨rfl, rfl⟩ := pure_ok_iff.mp h
    refine ⟨hI2.of_eq fun b => ?_, List.forall_iff_forall_mem.mp trivial⟩
    rw [inHand_drop, add_comm]

theorem Inv.lnkError {d r : Bool} {error : Nat} (h : lnkError env a d r error t = .ok (fs, t')) :
    Leaves e L fs t' := by
  simp only [Dmsg.lnkError, bind_ok_iff, deref_ok] at h
  obtain ⟨m, t1, h1, s, t1, ⟨-, rfl⟩, _, t2, h2, h3⟩ := h
  exact ((hI.msgAlloc he h1).1.updMsg h2 fun _ => rfl).msgWrite h3

theorem Inv.msgAnswer {d : Bool} {error : Nat} (h : msgAnswer env d m error t = .ok (fs, t')) :
    Leaves e L fs t' := by
  simp only [Dmsg.msgAnswer, bind_ok_iff, getMsg_ok, deref_ok] at h
  obtain ⟨x, t, ⟨-, rfl⟩, s, t, ⟨-, rfl⟩, h⟩ := h
  split at h
  · exact hI.lnkError he h
  · split at h
    · obtain ⟨rfl, rfl⟩ := pure_ok_iff.mp h
      exact .nil hI
    · exact hI.lnkError he h

theorem Inv.stateAnswer {d : Bool} {error : Nat} (h : stateAnswer env d a error t = .ok (fs, t')) :
    Leaves e L fs t' := by
  simp only [Dmsg.stateAnswer, bind_ok_iff, deref_ok] at h
  obtain ⟨s, t, ⟨-, rfl⟩, h⟩ := h
  split at h
  · obtain ⟨rfl, rfl⟩ := pure_ok_iff.mp h
    exact .nil hI
  · exact hI.lnkError he h

/-! ## Relays -/

/-- A message that opened a transaction is bound to one with a place and no relay. -/
def RelayOk (t : Trans) (x : TransMsg) : Prop :=
  x.cmd.opens = true →
    ∃ s, t.heap.get x.state = some s ∧ s.subinserted = true ∧ s.relay = none

theorem Inv.relayTarget {r : Nat} (hx : RelayOk t x) (h : relayTarget env x t = .ok (r, t')) :
    Inv none e L t' := by
  simp only [Dmsg.relayTarget, bind_ok_iff, deref_ok] at h
  obtain ⟨ls, t, ⟨hls, rfl⟩, h⟩ := h
  cases ho : x.cmd.opens with
  | false =>
    rw [if_neg (by rw [ho]; simp)] at h
    simp only [bind_ok_iff, nonNull_ok, deref_ok, check_ok] at h
    obtain ⟨q, t, ⟨-, rfl⟩, qs, t, ⟨-, rfl⟩, _, t, ⟨-, rfl⟩, h⟩ := h
    exact (hI.msgAlloc he h).1
  | true =>
    rw [if_pos ho] at h
    simp only [bind_ok_iff, nonNull_ok, deref_ok, check_ok, getMsg_ok, pure_ok_iff] at h
    obtain ⟨lp, t, ⟨-, rfl⟩, lps, t, ⟨-, rfl⟩, _, t, ⟨hrel, rfl⟩, rp, t, ⟨-, rfl⟩, k, t1, h1, y,
      t1, ⟨hy, rfl⟩, _, t2, h2, _, t3, h3, _, t4, h4, _, t5, h5, rfl, rfl⟩ := h
    obtain ⟨ls', hls', hsub, -⟩ := hx ho
    rw [hls] at hls'
    cases hls'
    obtain ⟨hI1, y', hA⟩ := hI.msgAlloc he h1
    rw [hA.msg] at hy
    cases hy
    obtain ⟨hnone, rs, hrs, hrsub, hrrel⟩ := hA.opened ho
    have hne : x.state ≠ y.state := by
      intro hc
      rw [hc, hnone] at hls
      cases hls
    -- the references are taken after the pointers are set
    have hI2 := hI1.setRelay hrs hrrel hrsub h2
    obtain ⟨ls1, hls1, heq1⟩ := hA.ext _ _ hls
    obtain ⟨-, rfl⟩ := update_ok.mp h2
    have hls2 := Store.get_modify_of_ne t1.heap (fun s => { s with relay := some x.state }) hne
    rw [hls1] at hls2
    have hI3 := hI2.setRelay hls2 (by rw [heq1]; exact hrel) (by rw [heq1]; exact hsub) h3
    have hI5 := (hI3.hold h4).hold h5
    refine hI5.of_eq fun b => ?_
    simp only [Pi.add_apply, Pi.sub_apply]
    omega

theorem Inv.stateRelay (hm : t.msgs.get m = some x) (hx : RelayOk t x)
    (h : dmsgStateRelay env m t = .ok (fs, t')) : Leaves e L fs t' := by
  simp only [dmsgStateRelay, bind_ok_iff, getMsg_ok] at h
  obtain ⟨x', t, ⟨hx', rfl⟩, r, t1, h1, _, t2, h2, _, t3, h3, h4⟩ := h
  rw [hm] at hx'
  cases hx'
  exact (((hI.relayTarget he hx h1).updMsg h2 fun _ => rfl).updMsg h3 fun _ => rfl).msgWrite h4

end

theorem Leaves.callback (hI : Inv none e L t) : Leaves e L [.callback m] t :=
  .keep hI (by simp) trivial

theorem Inv.deliver (hI : Inv none e L t) (he : ∀ a, 0 ≤ e a) (hm : t.msgs.get m = some x)
    (hx : RelayOk t x) (h : deliver env m t = .ok (fs, t')) : Leaves e L fs t' := by
  simp only [Dmsg.deliver, bind_ok_iff, getMsg_ok, deref_ok] at h
  obtain ⟨x', t, ⟨-, rfl⟩, s, t, ⟨-, rfl⟩, h⟩ := h
  split at h
  · exact hI.stateRelay he hm hx h
  · obtain ⟨rfl, rfl⟩ := pure_ok_iff.mp h
    exact .callback hI

theorem Inv.generateRelay {src : Addr} {span : TransHdr} (hI : Inv none e L t)
    (he : ∀ a, 0 ≤ e a) (h : dmsgGenerateRelay env i src span t = .ok (fs, t')) :
    Leaves e L fs t' := by
  simp only [dmsgGenerateRelay, bind_ok_iff, getMsg_ok] at h
  obtain ⟨_, t1, h1, k, t2, h2, x, t2, ⟨hx, rfl⟩, _, t3, h3, _, t4, h4, _, t5, h5, _, t6, h6, h7⟩ := h
  obtain ⟨hI2, x', hA⟩ := (hI.holdX h1).msgAlloc he h2
  rw [hA.msg] at hx
  cases hx
  obtain ⟨-, xs, hxs, hsub, hrel⟩ := hA.opened rfl
  have hI3 := hI2.holdX h3
  have hxs3 : t3.heap.get x.state = some { xs with refs := xs.refs + 1 } := by
    simp only [Dmsg.holdX, dmsgStateHold, bind_ok_iff, update_ok, modifyT_ok] at h3
    obtain ⟨_, _, ⟨-, rfl⟩, rfl⟩ := h3
    exact Store.get_modify_some _ hxs
  have hI4 := hI3.updMsg h4 fun _ => rfl
  obtain ⟨-, rfl⟩ := updMsg_ok.mp h4
  have hI6 := (hI4.setRelay hxs3 hrel hsub h5).hold h6
  rw [sub_add_cancel] at hI6
  exact hI6.msgWrite h7

/-! ## Aborts -/

theorem Inv.simulate {meto : Bool} (hI : Inv none e L t) (hok : (Frame.simulate a meto).Ok)
    (h : dmsgSimulateFailure a meto t = .ok (fs, t')) : Leaves e L fs t' := by
  simp only [dmsgSimulateFailure, bind_ok_iff, pure_ok_iff] at h
  obtain ⟨_, t1, h1, rfl, rfl⟩ := h
  refine ⟨(hI.hold h1).of_eq fun b => ?_, ?_⟩
  · have hother : inHand ((if meto then [.abort a] else []) ++ [.scanSubq a none]) = 0 := by
      cases meto <;> funext b <;> simp [inHand]
    have : ((if meto then [Frame.abort a] else []) ++ [.scanSubq a none, .drop a]) =
        ((if meto then [.abort a] else []) ++ [.scanSubq a none]) ++ [.drop a] := by simp
    rw [this, inHand_append, hother, inHand_drop, zero_add, add_comm]
  · intro f hf
    rcases List.mem_append.mp hf with hf | hf
    · cases meto with
      | false => cases hf
      | true =>
        obtain rfl := List.mem_singleton.mp hf
        exact hok
    · simp only [List.mem_cons, List.not_mem_nil, or_false] at hf
      rcases hf with rfl | rfl <;> trivial

theorem firstAlive_ok {l : List Addr} {r : Option Addr} (h : firstAlive l t = .ok (r, t')) :
    t' = t ∧ ∀ c, r = some c → c ∈ l := by
  induction l with
  | nil =>
    obtain ⟨rfl, rfl⟩ := pure_ok_iff.mp h
    exact ⟨rfl, fun c hc => by cases hc⟩
  | cons d l ih =>
    simp only [firstAlive, bind_ok_iff, deref_ok] at h
    obtain ⟨s, t, ⟨-, rfl⟩, h⟩ := h
    split at h
    · obtain ⟨rfl, hmem⟩ := ih h
      exact ⟨rfl, fun c hc => List.mem_cons_of_mem _ (hmem c hc)⟩
    · obtain ⟨rfl, rfl⟩ := pure_ok_iff.mp h
      exact ⟨rfl, fun c hc => by cases hc; exact List.mem_cons_self⟩

theorem Inv.scanSubq {after : Option Addr} (hI : Inv none e L t)
    (h : scanSubq a after t = .ok (fs, t')) : Leaves e L fs t' := by
  simp only [Dmsg.scanSubq, bind_ok_iff, deref_ok] at h
  obtain ⟨s, t, ⟨hs, rfl⟩, next, t1, h1, h⟩ := h
  obtain ⟨rfl, hmem⟩ := firstAlive_ok h1
  cases next with
  | none =>
    obtain ⟨rfl, rfl⟩ := pure_ok_iff.mp h
    exact .nil hI
  | some sub =>
    simp only [bind_ok_iff, pure_ok_iff] at h
    obtain ⟨_, t2, h2, rfl, rfl⟩ := h
    have hsub : sub ∈ s.subq := by
      have := hmem sub rfl
      split at this
      · exact this
      · exact (List.dropWhile_suffix _).subset (List.mem_of_mem_tail this)
    exact .keep (hI.update_inert h2 fun s _ => Inert.of_fields rfl) (by simp)
      ⟨((hI.shape a s hs).down sub hsub).1, trivial⟩

theorem Inv.dying (hI : Inv none e L t) (hok : (Frame.dying a).Ok)
    (h : dmsgStateDying a t = .ok (fs, t')) : Leaves e L fs t' := by
  obtain ⟨n, rfl⟩ := hok
  simp only [dmsgStateDying, bind_ok_iff, deref_ok] at h
  obtain ⟨s, t, ⟨hs, rfl⟩, h⟩ := h
  split at h
  · obtain ⟨rfl, rfl⟩ := pure_ok_iff.mp h
    exact .nil hI
  · simp only [bind_ok_iff, pure_ok_iff] at h
    obtain ⟨_, t1, h1, rfl, rfl⟩ := h
    refine .keep (hI.update_inert h1 fun s _ => Inert.of_dyn rfl) (by simp)
      (List.forall_iff_forall_mem.mpr fun f hf => ?_)
    obtain ⟨c, hc, rfl⟩ := List.mem_map.mp hf
    exact ((hI.shape _ s hs).down c hc).1

theorem Inv.abort (hI : Inv none e L t) (hok : (Frame.abort a).Ok)
    (h : dmsgStateAbort a t = .ok (fs, t')) : Leaves e L fs t' := by
  obtain ⟨n, rfl⟩ := hok
  simp only [dmsgStateAbort, bind_ok_iff, deref_ok] at h
  obtain ⟨s, t, ⟨hs, rfl⟩, h⟩ := h
  split at h
  · obtain ⟨rfl, rfl⟩ := pure_ok_iff.mp h
    exact .nil hI
  · simp only [bind_ok_iff, pure_ok_iff] at h
    obtain ⟨_, t1, h1, rfl, rfl⟩ := h
    exact .keep (hI.update_inert h1 fun s _ => Inert.of_dyn rfl) (by simp) ⟨⟨n, rfl⟩, n, rfl⟩

/-- A function leaves the calls `fs`, and its caller has `g` left to do. -/
theorem Leaves.snoc {g : Frame} (h : Leaves e L fs t) (hg : ∀ a, g ≠ .drop a) (hok : g.Ok) :
    Leaves e L (fs ++ [g]) t := by
  refine ⟨by rw [inHand_append, inHand_other hg, add_zero]; exact h.1, fun f hf => ?_⟩
  rcases List.mem_append.mp hf with hf | hf
  · exact h.2 f hf
  · obtain rfl := List.mem_singleton.mp hf
    exact hok

theorem Inv.abortSim (hI : Inv none e L t) (he : ∀ a, 0 ≤ e a) (hok : (Frame.abortSim a).Ok)
    (h : abortSim env a t = .ok (fs, t')) : Leaves e L fs t' := by
  obtain ⟨n, rfl⟩ := hok
  simp only [Dmsg.abortSim, bind_ok_iff, deref_ok] at h
  obtain ⟨s, t, ⟨hs, rfl⟩, h⟩ := h
  split at h
  · obtain ⟨rfl, rfl⟩ := pure_ok_iff.mp h
    exact .nil hI
  · simp only [bind_ok_iff, pure_ok_iff] at h
    obtain ⟨k, t1, h1, _, t2, h2, er, t3, h3, _, t4, h4, gs, t5, h5, rfl, rfl⟩ := h
    obtain ⟨hI1, x, hA⟩ := hI.allocLocked he h1
    have hI2 := hI1.updMsg h2 fun _ => rfl
    obtain ⟨-, rfl⟩ := updMsg_ok.mp h2
    obtain ⟨hI3, hno, z, hz, hhdr⟩ :=
      hI2.msgrx_abort he (Store.get_modify_some _ hA.msg) (hA.bound rfl) h3
    have hz4 : t4.msgs.get k = some z := by
      rw [unlock_ok h4]
      exact hz
    refine ((hI3.unlock h4).deliver he hz4 (fun ho => ?_) h5).snoc (by simp) trivial
    rw [hhdr, hno] at ho
    cases ho

/-! ## Steps of the machine -/

theorem Inv.drain {ms : List Nat} (hI : Inv none e L t)
    (h : iocomDrain env i ms t = .ok (u, t')) : Inv none e L t' := by
  induction ms generalizing t with
  | nil =>
    obtain ⟨-, rfl⟩ := pure_ok_iff.mp h
    exact hI
  | cons m ms ih =>
    simp only [iocomDrain, bind_ok_iff, modifyT_ok] at h
    obtain ⟨_, _, rfl, _, t2, h2, h3⟩ := h
    have hI1 : Inv none e L { t with ioqTx := t.ioqTx.erase (i, m) } :=
      hI.congr rfl rfl rfl rfl rfl rfl
    exact ih (hI1.msgFree h2) h3

theorem Inv.execCall {c : Call} (hI : Inv none e L t) (he : ∀ a, 0 ≤ e a)
    (h : execCall env c t = .ok (fs, t')) : Leaves e L fs t' := by
  cases c with
  | alloc a aux cmd func data => exact .last h fun _ _ h1 => (hI.msgAlloc he h1).1
  | fill m error ext aux => exact .last h fun _ _ h1 => hI.updMsg h1 fun _ => rfl
  | write m => exact hI.msgWrite h
  | free m => exact .last h fun _ _ h1 => hI.msgFree h1
  | msgReply m error => exact hI.msgAnswer he h
  | msgResult m error => exact hI.msgAnswer he h
  | stateReply a error => exact hI.stateAnswer he h
  | stateResult a error => exact hI.stateAnswer he h
  | claim a func any => exact .last h fun _ _ h1 => hI.update_inert h1 fun s _ => .of_fields rfl
  | hold a => exact .last h fun _ _ h1 => hI.holdX h1
  | drop a => exact .last h fun _ _ h1 => hI.dropX h1
  | generateRelay i src span => exact hI.generateRelay he h
  | relayDelete target src =>
    simp only [Dmsg.execCall, bind_ok_iff, pure_ok_iff] at h
    obtain ⟨_, t1, h1, rfl, rfl⟩ := h
    exact .keep (hI.update_inert h1 fun s _ => .of_fields rfl) (by simp)
      ⟨trivial, trivial, trivial⟩

/-- One frame is run: what it has in hand is dropped or handed on. -/
theorem Inv.exec {f : Frame} (hI : Inv none (inHand [f] + e) L t) (he : ∀ a, 0 ≤ e a)
    (hok : f.Ok) (h : exec env f t = .ok (fs, t')) : Leaves e L fs t' := by
  by_cases hd : ∃ a, f = .drop a
  · obtain ⟨a, rfl⟩ := hd
    simp only [Dmsg.exec, bind_ok_iff, pure_ok_iff] at h
    obtain ⟨_, t1, h1, rfl, rfl⟩ := h
    rw [inHand_drop] at hI
    have hI1 := hI.drop h1 (fun hc => by cases hc)
    rw [add_sub_cancel_left] at hI1
    exact .nil hI1
  rw [inHand_other (fun a hc => hd ⟨a, hc⟩), zero_add] at hI
  cases f with
  | callback m => cases h
  | coreCleanup i m =>
    simp only [Dmsg.exec, bind_ok_iff, pure_ok_iff] at h
    obtain ⟨_, t1, h1, _, t2, h2, _, t3, h3, rfl, rfl⟩ := h
    exact .nil (((hI.lock h1).cleanuprx he h2).unlock h3)
  | abortCleanup i m =>
    simp only [Dmsg.exec, bind_ok_iff, pure_ok_iff] at h
    obtain ⟨_, t1, h1, _, t2, h2, rfl, rfl⟩ := h
    exact .nil ((hI.lock h1).cleanuprx he h2)
  | call c => exact hI.execCall he h
  | cleanuptx i m => exact hI.cleanuptx he h
  | writeDying a =>
    simp only [Dmsg.exec, bind_ok_iff, deref_ok, pure_ok_iff] at h
    obtain ⟨s, t, ⟨-, rfl⟩, rfl, rfl⟩ := h
    split
    · exact .nil hI
    · exact .keep hI (by simp) hok
  | enqueue i m =>
    simp only [Dmsg.exec, bind_ok_iff, modifyT_ok, pure_ok_iff] at h
    obtain ⟨_, _, rfl, rfl, rfl⟩ := h
    exact .nil (hI.congr rfl rfl rfl rfl rfl rfl)
  | msgFree m => exact .last h fun _ _ h1 => hI.msgFree h1
  | unlock i => exact .last h fun _ _ h1 => hI.unlock h1
  | simulate a meto => exact hI.simulate hok h
  | scanSubq a after => exact hI.scanSubq h
  | scanCheck a sub =>
    simp only [Dmsg.exec, Dmsg.scanCheck, bind_ok_iff, deref_ok, pure_ok_iff] at h
    obtain ⟨s, t, ⟨-, rfl⟩, rfl, rfl⟩ := h
    exact .keep hI (by simp) trivial
  | abort a => exact hI.abort hok h
  | abortSim a => exact hI.abortSim he hok h
  | dying a => exact hI.dying hok h
  | drop a => exact absurd ⟨a, rfl⟩ hd

section

variable (hI : Inv none e L t) (he : ∀ a, 0 ≤ e a)
include hI he

/-- The message of `dmsg_ioq_read` before its state is looked up. -/
theorem Inv.ioqAlloc {hdr : TransHdr} {aux : List UInt8}
    (h : ioqAlloc env i hdr aux t = .ok (m, t')) :
    Inv none e L t' ∧ t'.staterd = t.staterd ∧ t'.statewr = t.statewr ∧
      t'.heap = t.heap.modify (.root i) (fun s => { s with refs := s.refs + 1 }) ∧
      ∃ x s, t'.msgs.get m = some x ∧ x.toTransHdr = hdr ∧ x.state = .root i ∧
        t'.heap.get (.root i) = some s ∧ s.iocom = i := by
  simp only [Dmsg.ioqAlloc, bind_ok_iff, pure_ok_iff] at h
  obtain ⟨m, t1, h1, _, t2, h2, rfl, rfl⟩ := h
  obtain ⟨hI1, x, hA⟩ := hI.msgAlloc he h1
  have hI2 := hI1.updMsg h2 fun _ => rfl
  obtain ⟨-, rfl⟩ := updMsg_ok.mp h2
  have hst : x.state = .root i := hA.bound rfl
  obtain ⟨s, hs⟩ : ∃ s, t1.heap.get (.root i) = some s := by
    refine hI1.alive (he _) (Or.inl ?_)
    have := Store.le_total (fun _ y => if y.state = .root i then 1 else 0) hA.msg
    rw [if_pos hst] at this
    simp only [Trans.pointers, msgRefs]
    omega
  obtain ⟨hr, hw, hh⟩ := hA.same rfl
  exact ⟨hI2, hr, hw, hh, _, s, Store.get_modify_some _ hA.msg, rfl, hst, hs,
    ((hI1.shape _ s hs).ofRoot i rfl).2.2.2⟩

theorem Inv.rxMsg {hdr : TransHdr} {aux : List UInt8} (h : rxMsg env i hdr aux t = .ok (fs, t')) :
    ∃ n, Leaves e (t.loses n i hdr ++ L) fs t' := by
  simp only [Dmsg.rxMsg, ioqRead, bind_ok_iff] at h
  obtain ⟨r, t4, ⟨m, t1, h1, er, t2, h2, h3⟩, h4⟩ := h
  obtain ⟨hI1, hr, hw, -, x, s, hx, hhdr, hst, hs, hioc⟩ := hI.ioqAlloc he h1
  obtain ⟨⟨n, hI2⟩, z, hz, hzhdr, hopen⟩ := hI1.msgrx he hx hst hs hioc h2
  have hloses : t1.loses n i hdr = t.loses n i hdr := by
    simp only [Trans.loses, Trans.forgets, rxCircuit, rxFind, hr, hw]
  rw [hhdr, hloses] at hI2
  refine ⟨n, ?_⟩
  cases er with
  | ealready =>
    simp only [bind_ok_iff, pure_ok_iff] at h3
    obtain ⟨_, t3, h3, rfl, rfl⟩ := h3
    obtain ⟨rfl, rfl⟩ := pure_ok_iff.mp h4
    exact .nil (hI2.msgFree h3)
  | ok =>
    obtain ⟨rfl, rfl⟩ := pure_ok_iff.mp h3
    simp only [bind_ok_iff, pure_ok_iff] at h4
    obtain ⟨gs, t3, h4, rfl, rfl⟩ := h4
    have hL := (hI2.deliver he hz (fun ho => hopen rfl (by rw [hzhdr] at ho; exact ho)) h4)
    exact hL.snoc (by simp) trivial

theorem Inv.connect (hn : t.heap.get (.root i) = none) :
    Inv none e L { t with heap := t.heap.insert (.root i) (state0 i) } := by
  have hget := fun b => Store.get_insert t.heap (.root i) b (state0 i) hn
  have hkeep : ∀ (b : Addr) (bs : DmsgState), t.heap.get b = some bs →
      (t.heap.insert (.root i) (state0 i)).get b = some bs := by
    intro b bs hb
    rw [hget b, if_neg]
    · exact hb
    · rintro rfl
      rw [hn] at hb
      cases hb
  have hzero := hI.bal (.root i)
  rw [Store.valAt_none _ hn, Store.valAt_none _ hn] at hzero
  have hei := he (.root i)
  have hout : t.inTree (.root i) = false := by
    cases hin : t.inTree (.root i) with
    | false => rfl
    | true =>
      simp only [Trans.pointers, hin, Bool.toNat_true] at hzero
      omega
  refine hI.reheap (fun b bs hin hb => ?_) (fun b bs hb => ?_) fun b => ?_
  · rw [hget b] at hb
    split_ifs at hb with hbi
    · rw [hbi, hout] at hin
      cases hin
    · exact ⟨bs, hb, rfl, rfl⟩
  · rw [hget b] at hb
    by_cases hbi : b = .root i
    · subst hbi
      rw [if_pos rfl] at hb
      cases hb
      exact ⟨Nat.one_pos, fun hc => (by cases hc), fun c hc => (by cases hc), List.nodup_nil,
        fun hc => absurd rfl hc, fun k hk => (by cases hk; exact ⟨rfl, rfl, rfl, rfl⟩),
        fun k hk => by cases hk⟩
    · rw [if_neg hbi] at hb
      have hS := hI.shape b bs hb
      refine { hS with up := fun hs => ?_, down := fun c hc => ?_ }
      · obtain ⟨p, ps, hp, hps, hmem⟩ := hS.up hs
        exact ⟨p, ps, hp, hkeep p ps hps, hmem⟩
      · obtain ⟨hdyn, cs, hcs, hpar, hsub⟩ := hS.down c hc
        exact ⟨hdyn, cs, hkeep c cs hcs, hpar, hsub⟩
  · have hbal := hI.bal b
    simp only [Trans.pointers, Trans.inTree, relayRefs] at hbal hzero ⊢
    rw [Store.valAt_insert _ _ b hn, Store.valAt_insert _ _ b hn, Store.total_insert _ _ hn]
    by_cases hb : b = .root i
    · subst hb
      simp only [if_true, state0, DmsgState.own, List.isEmpty_nil, Bool.not_true, Bool.toNat_true,
        Bool.toNat_false, reduceCtorEq, if_false]
      omega
    · simp only [if_neg hb, state0, reduceCtorEq, if_false]
      omega

/-- The input is a CREATE of a peer, on a circuit that exists. -/
def Opens (t : Trans) : Input → Prop
  | .rx i h _ => Accepts t i h
  | _ => False

/-- The input is a CREATE of a peer whose circuit is a transaction, or whose msgid is taken. -/
def OpensNested (t : Trans) : Input → Prop
  | .rx i h _ => Accepts t i h ∧
      ((∃ n, rxCircuit t i h = some (.dyn n)) ∨ rbFind t.staterd i h.msgid ≠ none)
  | _ => False

/-- The references that an input makes the process lose. -/
def Trans.losesBy (t : Trans) (n : Nat) : Input → List Addr
  | .rx i h _ => t.loses n i h
  | _ => []

theorem Inv.enter {inp : Input} (h : enter env inp t = .ok (fs, t')) :
    ∃ n, Leaves e (t.losesBy n inp ++ L) fs t' := by
  cases inp with
  | run => cases h
  | ret => cases h
  | call c =>
    obtain ⟨rfl, rfl⟩ := pure_ok_iff.mp h
    exact ⟨0, .keep hI (by simp) trivial⟩
  | connect i =>
    simp only [Dmsg.enter] at h
    split at h
    · rename_i hn
      cases h
      exact ⟨0, .nil (hI.connect he hn)⟩
    · cases h
  | rx i hdr aux => exact hI.rxMsg he h
  | linkError i =>
    simp only [Dmsg.enter, bind_ok_iff, pure_ok_iff] at h
    obtain ⟨_, t1, h1, _, _, hg, _, t2, h2, rfl, rfl⟩ := h
    cases hg
    exact ⟨0, .keep ((hI.lock h1).drain h2) (by simp) ⟨trivial, trivial⟩⟩
  | flush1 i =>
    simp only [Dmsg.enter, bind_ok_iff, modifyT_ok, pure_ok_iff] at h
    obtain ⟨_, t1, h1, _, _, rfl, _, t2, h2, rfl, rfl⟩ := h
    have hI1 : Inv none e L { t1 with
        txmsgq := t1.txmsgq.filter (·.1 ≠ i)
        ioqTx := t1.ioqTx ++ t1.txmsgq.filter (·.1 = i) } :=
      (hI.lock h1).congr rfl rfl rfl rfl rfl rfl
    exact ⟨0, .nil (hI1.unlock h2)⟩
  | sent i m =>
    simp only [Dmsg.enter, bind_ok_iff] at h
    obtain ⟨_, _, hg, h⟩ := h
    cases hg
    split at h
    · simp only [bind_ok_iff, modifyT_ok, pure_ok_iff] at h
      obtain ⟨_, _, rfl, _, t1, h1, rfl, rfl⟩ := h
      have hI1 : Inv none e L { t with ioqTx := t.ioqTx.erase (i, m) } :=
        hI.congr rfl rfl rfl rfl rfl rfl
      exact ⟨0, .nil (hI1.msgFree h1)⟩
    · cases h
  | drain i =>
    simp only [Dmsg.enter, bind_ok_iff, pure_ok_iff] at h
    obtain ⟨_, _, hg, _, t1, h1, rfl, rfl⟩ := h
    cases hg
    exact ⟨0, .nil (hI.drain h1)⟩

end

def Machine.Inv (M : Machine) : Prop :=
  Dmsg.Inv none (inHand M.stack) M.t.lost M.t ∧ ∀ f ∈ M.stack, f.Ok

theorem Machine.push_ok {r : Except Fault (List Frame × Trans)} {M : Machine} :
    Machine.push fs r = .ok M ↔ ∃ new t, r = .ok (new, t) ∧ M = ⟨t, new ++ fs⟩ := by
  cases r with
  | error f => simp [Machine.push]
  | ok q =>
    obtain ⟨new, t⟩ := q
    simp [Machine.push, eq_comm]

theorem Leaves.machine {new : List Frame} (h : Leaves (inHand fs) t.lost new t)
    (hok : ∀ f ∈ fs, f.Ok) : Machine.Inv ⟨t, new ++ fs⟩ := by
  refine ⟨by rw [inHand_append]; exact h.1, fun f hf => ?_⟩
  exact (List.mem_append.mp hf).elim (h.2 f) (hok f)

/-- One step of the machine keeps the invariant, and loses references only by its input. -/
theorem Machine.Inv.step {M M' : Machine} {inp : Input} (hM : M.Inv)
    (h : step env M inp = .ok M') :
    M'.Inv ∧ ∃ n, M'.t.lost = M.t.losesBy n inp ++ M.t.lost := by
  obtain ⟨hI, hok⟩ := hM
  have henter : (if idle M.stack then Machine.push M.stack (enter env inp M.t)
      else .error .stuck) = .ok M' →
        M'.Inv ∧ ∃ n, M'.t.lost = M.t.losesBy n inp ++ M.t.lost := by
    intro h
    split at h
    · obtain ⟨new, t, h1, rfl⟩ := Machine.push_ok.mp h
      obtain ⟨n, hl⟩ := hI.enter (inHand_nonneg _) h1
      have hlost : t.lost = _ := hl.1.lost
      rw [← hlost] at hl
      exact ⟨hl.machine hok, n, hlost⟩
    · cases h
  cases inp with
  | run =>
    rw [Dmsg.step] at h
    split at h
    · cases h
    · rename_i f fs hst
      obtain ⟨new, t, h1, rfl⟩ := Machine.push_ok.mp h
      rw [hst, inHand_cons] at hI
      rw [hst] at hok
      have hl := hI.exec (inHand_nonneg _) (hok f List.mem_cons_self) h1
      have hlost : t.lost = M.t.lost := hl.1.lost
      rw [← hlost] at hl
      exact ⟨hl.machine fun g hg => hok g (List.mem_cons_of_mem _ hg), 0, hlost⟩
  | ret =>
    rw [Dmsg.step] at h
    split at h
    · rename_i k fs hst
      cases h
      rw [hst, inHand_cons, inHand_other (by simp), zero_add] at hI
      rw [hst] at hok
      exact ⟨⟨hI, fun g hg => hok g (List.mem_cons_of_mem _ hg)⟩, 0, rfl⟩
    · cases h
  | call c => exact henter h
  | connect i => exact henter h
  | rx i hdr aux => exact henter h
  | linkError i => exact henter h
  | flush1 i => exact henter h
  | sent i m => exact henter h
  | drain i => exact henter h

theorem Machine.inv_init : Machine.init.Inv := by
  refine ⟨⟨rfl, fun a => ?_, fun a s h => ?_, fun x hx => ?_, fun x hx => ?_⟩, fun f hf => ?_⟩
  · rfl
  · cases h
  · cases hx
  · cases hx
  · cases hf

/-! ## Exact counts -/

/-- The state is on the subq of some state. -/
def Trans.onSubq (t : Trans) (a : Addr) : Bool :=
  t.heap.entries.any fun en => decide (a ∈ en.2.subq)

/-- What refers to a state: a subq, a tree, messages, relays, link structures and calls in
    progress. -/
def Machine.references (M : Machine) (a : Addr) : Nat :=
  (M.t.onSubq a).toNat + M.t.pointers a + M.stack.count (.drop a)

/-- The count of the state is the number of references to it, one more if it has
    sub-transactions, and one for a `state0` itself. A state that is referenced is not freed, and
    one that is not is. -/
def Machine.ExactAt (M : Machine) (a : Addr) : Prop :=
  match M.t.heap.get a with
  | some s => s.refs = s.root.toNat + (!s.subq.isEmpty).toNat + M.references a ∧ 0 < s.refs
  | none => M.references a = 0

/-- All counts are exact, those of the `state0` of the connections among them. -/
def Machine.RefsExact (M : Machine) : Prop := ∀ a, M.ExactAt a

theorem Inv.onSubq (hI : Inv none e L t) :
    t.onSubq a = true ↔ ∃ s, t.heap.get a = some s ∧ s.subinserted = true := by
  simp only [Trans.onSubq, List.any_eq_true, decide_eq_true_eq]
  constructor
  · rintro ⟨⟨q, qs⟩, hq, hmem⟩
    obtain ⟨-, s, hs, -, hsub⟩ := (hI.shape q qs (Store.get_eq_some.mpr hq)).down a hmem
    exact ⟨s, hs, hsub⟩
  · rintro ⟨s, hs, hsub⟩
    obtain ⟨p, ps, -, hps, hmem⟩ := (hI.shape a s hs).up hsub
    exact ⟨(p, ps), Store.get_eq_some.mp hps, hmem⟩

theorem losesBy_opens {n : Nat} {inp : Input} :
    (∀ a, True → a ∉ t.losesBy n inp) ↔ ¬ Opens t inp := by
  cases inp with
  | rx i h aux =>
    simp only [Trans.losesBy, Trans.loses, Opens, Accepts]
    cases rxCircuit t i h with
    | none => simp
    | some p =>
      cases h.cmd.opens with
      | false => simp
      | true => exact iff_of_false (fun hall => hall p trivial (by simp [Trans.forgets])) (by simp)
  | _ => simp [Trans.losesBy, Opens]

theorem losesBy_opensNested {n : Nat} {inp : Input} :
    (∀ a, (∃ k, a = .dyn k) → a ∉ t.losesBy n inp) ↔ ¬ OpensNested t inp := by
  cases inp with
  | rx i h aux =>
    simp only [Trans.losesBy, Trans.loses, OpensNested, Accepts]
    cases rxCircuit t i h with
    | none => simp
    | some p =>
      cases h.cmd.opens with
      | false => simp
      | true =>
        cases p with
        | root j => cases hf : rbFind t.staterd i h.msgid <;> simp [Trans.forgets, hf]
        | dyn k =>
          exact iff_of_false (fun hall => hall _ ⟨k, rfl⟩ (by simp [Trans.forgets])) (by simp)
  | _ => simp [Trans.losesBy, OpensNested]

/-- A count is off by the references lost there. -/
theorem Machine.Inv.exactAt_iff {M : Machine} (hM : M.Inv) : M.ExactAt a ↔ a ∉ M.t.lost := by
  have hI := hM.1
  have hbal := hI.bal a
  have hon := hI.onSubq (a := a)
  rw [← List.count_eq_zero, Machine.ExactAt]
  cases hg : M.t.heap.get a with
  | some s =>
    have hpos := (hI.shape a s hg).pos
    rw [Store.valAt_some _ hg, Store.valAt_some _ hg] at hbal
    have honsub : M.t.onSubq a = s.subinserted := by
      rw [Bool.eq_iff_iff, hon, hg]
      simp
    simp only [Machine.references, honsub, inHand, DmsgState.own] at hbal ⊢
    omega
  | none =>
    have honsub : M.t.onSubq a = false := by
      rw [Bool.eq_false_iff, ne_eq, hon, hg]
      simp
    rw [Store.valAt_none _ hg, Store.valAt_none _ hg] at hbal
    simp only [Machine.references, honsub, Bool.toNat_false, inHand] at hbal ⊢
    omega

/-- Along a run, nothing in `A` is lost if and only if no input loses something in `A`. -/
theorem Machine.Inv.run {ins : List Input} {M M' : Machine} (hM : M.Inv)
    (h : run (Dmsg.step env) M ins = .ok M') :
    M'.Inv ∧ ∀ {A : Addr → Prop} {Q : Trans → Input → Prop},
      (∀ {t n inp}, (∀ a, A a → a ∉ t.losesBy n inp) ↔ ¬ Q t inp) →
      ((∀ a, A a → a ∉ M'.t.lost) ↔ (∀ a, A a → a ∉ M.t.lost) ∧
        Along (Dmsg.step env) (fun M inp => ¬ Q M.t inp) M ins) := by
  induction ins generalizing M with
  | nil =>
    cases h
    exact ⟨hM, by simp [Along]⟩
  | cons inp ins ih =>
    obtain ⟨M1, h1, h2⟩ := run_cons_inv h
    obtain ⟨hM1, n, hlost⟩ := hM.step h1
    obtain ⟨hM', hiff⟩ := ih hM1 h2
    refine ⟨hM', fun hQ => ?_⟩
    rw [hiff hQ, hlost, along_cons h1]
    simp only [List.mem_append, not_or, imp_and, forall_and, hQ]
    tauto

/-- After any run the reference counts are exact if and only if no peer has opened a
    transaction in it; those of the transactions alone, without `state0`, if and only if no peer
    has opened one on another or with a msgid that was taken. -/
theorem refs_exact_iff (env : Env) (ins : List Input) (M : Machine)
    (h : run (step env) Machine.init ins = .ok M) :
    (M.RefsExact ↔ Along (step env) (fun M inp => ¬ Opens M.t inp) Machine.init ins) ∧
    ((∀ n, M.ExactAt (.dyn n)) ↔
      Along (step env) (fun M inp => ¬ OpensNested M.t inp) Machine.init ins) := by
  obtain ⟨hM, hiff⟩ := Machine.inv_init.run h
  have hnil : ∀ {A : Addr → Prop} a, A a → a ∉ Machine.init.t.lost :=
    fun _ _ => List.not_mem_nil
  have hopens := (hiff losesBy_opens).trans (and_iff_right hnil)
  have hnested := (hiff losesBy_opensNested).trans (and_iff_right hnil)
  constructor
  · simpa [Machine.RefsExact, hM.exactAt_iff] using hopens
  · simpa [hM.exactAt_iff] using hnested

/-- A transaction that is opened here, answered and closed by the peer, and closed here. -/
def localRun : List Input :=
  opensHere ++ [arrives { create := true, delete := true, reply := true, revtrans := true } 1 0] ++
  answer (.msgReply 1 0) ++ [.flush1 0, .sent 0 2]

theorem localRun_exact : ∃ M, run (step .bump) Machine.init localRun = .ok M ∧
    M.t.heap.get (.dyn 1) = none ∧ M.RefsExact :=
  ⟨_, rfl, rfl, (refs_exact_iff .bump localRun _ rfl).1.mpr (Along.of_forall (by
    simp [localRun, opensHere, answer, arrives, Opens, Accepts, Cmd.opens]) _)⟩

/-- The peer opens a transaction, another one on it, and closes both; both are closed here. -/
def peerRun : List Input :=
  [.connect 0, arrives { create := true } 7 0] ++ answer (.msgResult 1 0) ++
  [arrives { create := true, delete := true } 8 7] ++ answer (.msgReply 3 0) ++
  [arrives { delete := true } 7 0] ++ answer (.msgReply 5 0) ++
  [.flush1 0, .sent 0 2, .sent 0 4, .sent 0 6]

/-- The first transaction is closed in both directions and nothing refers to it, but its count
    is one and it is never freed. -/
theorem peerRun_leaks : ∃ M s, run (step .bump) Machine.init peerRun = .ok M ∧ M.stack = [] ∧
    M.t.heap.get (.dyn 1) = some s ∧ s.closed = true ∧ s.subq = [] ∧
    M.references (.dyn 1) = 0 ∧ s.refs = 1 :=
  ⟨_, _, rfl, rfl, rfl, rfl, rfl, rfl, rfl⟩

end Lh1.Dmsg
