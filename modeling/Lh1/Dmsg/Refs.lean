/-
  The functions of the transaction layer that run to their end keep the reference counts.

  Allocation, freeing and the closing of transactions leave nothing in hand and nothing lost.
  `dmsg_state_msgrx` loses references exactly when it accepts a CREATE (`Inv.msgrx`); a message
  simulated by `dmsg_state_abort` never opens a transaction (`Inv.msgrx_abort`).
-/
import Lh1.Dmsg.RefInv

namespace Lh1.Dmsg

open Lh1.Lib

variable {env : Env} {e : Addr → ℤ} {L : List Addr} {t t' : Trans} {a b p : Addr}
  {s ps : DmsgState} {i m : Nat} {x : TransMsg} {u : Unit} {cmd : Cmd} {func : RxFunc}
  {data : Bool}

/-! ## Allocation -/

/-- Every state is still there, and only counts and queues have changed. -/
def Extends (t t' : Trans) : Prop :=
  ∀ b bs, t.heap.get b = some bs → ∃ bs', t'.heap.get b = some bs' ∧
    bs' = { bs with refs := bs'.refs, subq := bs'.subq }

theorem Extends.trans {t1 t2 t3 : Trans} (h1 : Extends t1 t2) (h2 : Extends t2 t3) :
    Extends t1 t3 := by
  intro b bs hb
  obtain ⟨bs1, hb1, heq1⟩ := h1 b bs hb
  obtain ⟨bs2, hb2, heq2⟩ := h2 b bs1 hb1
  refine ⟨bs2, hb2, ?_⟩
  rw [heq2, heq1]

theorem Extends.of_heap (h : t'.heap = t.heap) : Extends t t' :=
  fun b bs hb => ⟨bs, by rw [h]; exact hb, rfl⟩

theorem Extends.hold (h : dmsgStateHold a t = .ok (u, t')) : Extends t t' := by
  obtain ⟨-, rfl⟩ := update_ok.mp h
  intro b bs hb
  by_cases hba : b = a
  · exact ⟨_, by rw [Store.get_modify, if_pos hba, hb]; rfl, rfl⟩
  · exact ⟨bs, by rw [Store.get_modify, if_neg hba]; exact hb, rfl⟩

theorem Extends.opened {n : Nat} {c : DmsgState} (hn : t.heap.get (.dyn n) = none)
    (hps : t.heap.get p = some ps)
    (hh : t'.heap = (t.heap.insert (.dyn n) c).modify p (subqPush (.dyn n))) : Extends t t' := by
  intro b bs hb
  have hbn : b ≠ .dyn n := by
    rintro rfl
    rw [hn] at hb
    cases hb
  rw [hh, get_stacked hn hps, if_neg hbn]
  by_cases hbp : b = p
  · subst hbp
    rw [hps] at hb
    cases hb
    exact ⟨_, if_pos rfl, rfl⟩
  · exact ⟨bs, by rw [if_neg hbp]; exact hb, rfl⟩

section

variable (hI : Inv none e L t)
include hI

theorem Inv.openLocal {c : Addr} (he : ∀ a, 0 ≤ e a) (hps : t.heap.get p = some ps)
    (h : openLocal env p ps cmd func data t = .ok (c, t')) :
    Inv none (e + one c) L t' ∧ t'.msgs = t.msgs ∧ Extends t t' ∧ t.heap.get c = none ∧
      ∃ cs, t'.heap.get c = some cs ∧ cs.subinserted = true ∧ cs.relay = none := by
  simp only [Dmsg.openLocal, bind_ok_iff, newState_ok, modifyT_ok, subqInsert, update_ok,
    pure_ok_iff] at h
  obtain ⟨n, t, ⟨-, hn, rfl⟩, _, _, rfl, _, _, ⟨-, rfl⟩, rfl, rfl⟩ := h
  have hI1 := hI.opened (c := localState p ps n cmd func data) hn (he _) hps
    ⟨rfl, rfl, rfl, rfl, rfl, rfl⟩
  have hget := get_stacked (c := localState p ps n cmd func data) (f := subqPush (.dyn n)) hn hps
    (.dyn n)
  rw [if_pos rfl] at hget
  have hI2 := hI1.insertWr (i := ps.iocom) (hI.fresh_inTree hn (he _)) hget ⟨rfl, rfl⟩
  rw [add_sub_cancel_right] at hI2
  exact ⟨hI2, rfl, Extends.opened hn hps rfl, hn, _, hget, rfl, rfl⟩

/-- What `dmsg_msg_alloc` leaves: a message `x` at `m`, on `a` or on a new transaction. -/
structure Allocated (a : Addr) (cmd : Cmd) (t : Trans) (m : Nat) (t' : Trans) (x : TransMsg) :
    Prop where
  msg : t'.msgs.get m = some x
  fresh : t.msgs.get m = none
  other : ∀ k, k ≠ m → t'.msgs.get k = t.msgs.get k
  bound : cmd.opens = false → x.state = a
  opened : cmd.opens = true → t.heap.get x.state = none ∧
    ∃ xs, t'.heap.get x.state = some xs ∧ xs.subinserted = true ∧ xs.relay = none
  same : cmd.opens = false → t'.staterd = t.staterd ∧ t'.statewr = t.statewr ∧
    t'.heap = t.heap.modify a fun s => { s with refs := s.refs + 1 }
  ext : Extends t t'

theorem Inv.allocState {r : Addr × Addr} (he : ∀ a, 0 ≤ e a)
    (h : allocState env a cmd func data t = .ok (r, t')) :
    Inv none (e + one r.1) L t' ∧ t'.msgs = t.msgs ∧ Extends t t' ∧
      (cmd.opens = false → r.1 = a ∧ t'.staterd = t.staterd ∧ t'.statewr = t.statewr ∧
        t'.heap = t.heap.modify a fun s => { s with refs := s.refs + 1 }) ∧
      (cmd.opens = true → t.heap.get r.1 = none ∧
        ∃ cs, t'.heap.get r.1 = some cs ∧ cs.subinserted = true ∧ cs.relay = none) := by
  simp only [Dmsg.allocState, bind_ok_iff, deref_ok] at h
  obtain ⟨s, t, ⟨hs, rfl⟩, h⟩ := h
  cases ho : cmd.opens with
  | true =>
    rw [if_pos ho] at h
    simp only [bind_ok_iff, pure_ok_iff] at h
    obtain ⟨c, t1, h1, rfl, rfl⟩ := h
    obtain ⟨hI1, hm, hext, hcs⟩ := hI.openLocal he hs h1
    exact ⟨hI1, hm, hext, fun hc => (by cases hc), fun _ => hcs⟩
  | false =>
    rw [if_neg (by rw [ho]; simp)] at h
    simp only [bind_ok_iff, nonNull_ok, pure_ok_iff] at h
    obtain ⟨_, t1, h1, p, _, ⟨-, rfl⟩, rfl, rfl⟩ := h
    have hI1 := hI.hold h1
    have hext := Extends.hold h1
    obtain ⟨-, rfl⟩ := update_ok.mp h1
    exact ⟨hI1, rfl, hext, fun _ => ⟨rfl, rfl, rfl, rfl⟩, fun hc => (by cases hc)⟩

theorem Inv.allocLocked {aux : List UInt8} (he : ∀ a, 0 ≤ e a)
    (h : dmsgMsgAllocLocked env a aux cmd func data t = .ok (m, t')) :
    Inv none e L t' ∧ ∃ x, Allocated a cmd t m t' x := by
  simp only [dmsgMsgAllocLocked, bind_ok_iff] at h
  obtain ⟨⟨st, p⟩, t1, h1, h⟩ := h
  simp only [check_ok, deref_ok] at h
  obtain ⟨_, t1, ⟨-, rfl⟩, s, t1, ⟨-, rfl⟩, ps, t1, ⟨-, rfl⟩, h⟩ := h
  obtain ⟨hI1, hmsgs, hext, hbound, hopen⟩ := hI.allocState he h1
  have hI2 := hI1.newMsg h
  obtain ⟨-, hnone, rfl⟩ := newMsg_ok.mp h
  rw [add_sub_cancel_right] at hI2
  refine ⟨hI2, _, ⟨by rw [Store.get_insert _ _ _ _ hnone, if_pos rfl], hmsgs ▸ hnone, ?_,
    fun ho => (hbound ho).1, hopen, fun ho => (hbound ho).2, hext⟩⟩
  intro k hk
  rw [Store.get_insert _ _ _ _ hnone, if_neg hk, hmsgs]

end

theorem Extends.lock {mx : Mutex} (h : lock env mx t = .ok (u, t')) : Extends t t' :=
  .of_heap (by rw [lock_ok h])

theorem Extends.unlock {mx : Mutex} (h : unlock env mx t = .ok (u, t')) : Extends t t' :=
  .of_heap (by rw [unlock_ok h])

section

variable (hI : Inv none e L t)
include hI

theorem Inv.msgAlloc {aux : List UInt8} (he : ∀ a, 0 ≤ e a)
    (h : dmsgMsgAlloc env a aux cmd func data t = .ok (m, t')) :
    Inv none e L t' ∧ ∃ x, Allocated a cmd t m t' x := by
  simp only [dmsgMsgAlloc, bind_ok_iff, deref_ok, pure_ok_iff] at h
  obtain ⟨s, t, ⟨hs, rfl⟩, _, t1, h1, m, t2, h2, _, t', h3, rfl, rfl⟩ := h
  obtain ⟨hI2, x, hx⟩ := (hI.lock h1).allocLocked he h2
  refine ⟨hI2.unlock h3, x, ?_⟩
  have heq1 := lock_ok h1
  have hm1 : t1.msgs = t.msgs := by rw [heq1]
  have hh1 : t1.heap = t.heap := by rw [heq1]
  have heq3 := unlock_ok h3
  have hm3 : t'.msgs = t2.msgs := by rw [heq3]
  have hh3 : t'.heap = t2.heap := by rw [heq3]
  refine ⟨hm3 ▸ hx.msg, hm1 ▸ hx.fresh, fun k hk => by rw [hm3, hx.other k hk, hm1], hx.bound,
    fun ho => hh3 ▸ hh1 ▸ hx.opened ho, fun ho => ?_,
    (Extends.lock h1).trans (hx.ext.trans (Extends.unlock h3))⟩
  obtain ⟨hr, hw, hh⟩ := hx.same ho
  rw [heq1] at hr hw hh
  rw [heq3]
  exact ⟨hr, hw, hh⟩

/-! ## Closing -/

theorem Inv.cleanuprx (he : ∀ a, 0 ≤ e a) (h : dmsgStateCleanuprx env i m t = .ok (u, t')) :
    Inv none e L t' := by
  simp only [dmsgStateCleanuprx, bind_ok_iff, getMsg_ok, deref_ok, check_ok] at h
  obtain ⟨x, t, ⟨hx, rfl⟩, s, t, ⟨hs, rfl⟩, _, t, ⟨-, rfl⟩, _, t1, h1, h2⟩ := h
  rcases whenT_ok.mp h1 with ⟨-, h1⟩ | ⟨-, rfl⟩
  · rw [bind_ok_iff] at h1
    obtain ⟨_, t0, h0, h1⟩ := h1
    have hmsg : 0 < msgRefs t.msgs x.state := by
      have := Store.le_total (fun _ y => if y.state = x.state then 1 else 0) hx
      rw [if_pos rfl] at this
      exact this
    exact ((hI.subqDelete (he _) (Or.inl hmsg) h0).1.dropRelay h1).1.msgFree h2
  · exact hI.msgFree h2

theorem Inv.txClose {s' : DmsgState} (hea : 0 < e a) (hs : t.heap.get a = some s)
    (h : txClose x a s' t = .ok (u, t')) : Inv none e L t' ∧ t'.msgs = t.msgs := by
  unfold Dmsg.txClose at h
  split at h
  · obtain ⟨-, rfl⟩ := pure_ok_iff.mp h
    exact ⟨hI, rfl⟩
  · rw [bind_ok_iff] at h
    obtain ⟨_, t1, h1, h2⟩ := h
    have hI1 := hI.update_inert h1 fun s _ => .of_fields rfl
    obtain ⟨-, rfl⟩ := update_ok.mp h1
    rcases whenT_ok.mp h2 with ⟨-, h2⟩ | ⟨-, rfl⟩
    · simp only [bind_ok_iff] at h2
      obtain ⟨_, t2, h2, _, t3, h3, _, t4, h4, h5⟩ := h2
      have hs1 := Store.get_modify_some DmsgState.txDeleted hs
      obtain ⟨hI2, -, hm2, -⟩ := hI1.rbUnlink hs1 h2
      have hpos : 0 < (e + one a) a := by
        simp only [Pi.add_apply, one, if_true]
        omega
      obtain ⟨hI3, hm3⟩ := hI2.subqDelete hpos.le (Or.inr hpos) h3
      obtain ⟨hI4, hm4⟩ := hI3.dropRelay h4
      have hI5 := hI4.drop h5 (fun hc => by cases hc)
      rw [add_sub_cancel_right] at hI5
      exact ⟨hI5, (drop_msgs h5).trans (hm4.trans (hm3.trans hm2))⟩
    · exact ⟨hI1, rfl⟩

/-! ## Received messages -/

theorem Inv.rxBind {r : Addr} {found : Option Addr} (hx : t.msgs.get m = some x)
    (h : rxBind m x p found t = .ok (r, t')) :
    Inv none e L t' ∧ t'.msgs.get m = some { x with state := found.getD x.state } ∧
      (found = none ∧ t' = t ∨ found = some r ∧ ∃ s, t'.heap.get r = some s ∧
        s.parent = some p) := by
  cases found with
  | none =>
    obtain ⟨rfl, rfl⟩ := pure_ok_iff.mp h
    exact ⟨hI, hx, Or.inl ⟨rfl, rfl⟩⟩
  | some a =>
    simp only [Dmsg.rxBind, bind_ok_iff, deref_ok, check_ok, pure_ok_iff] at h
    obtain ⟨_, t1, h1, _, t2, h2, _, t3, h3, s, _, ⟨hs, rfl⟩, _, _, ⟨hpar, rfl⟩, rfl, rfl⟩ := h
    have hI1 := hI.drop h1 (fun hc => by cases hc)
    have hI2 := hI1.hold h2
    have hx1 : t1.msgs.get m = some x := drop_msgs h1 ▸ hx
    have hx2 : t2.msgs.get m = some x := by
      obtain ⟨-, rfl⟩ := update_ok.mp h2
      exact hx1
    have hI3 := hI2.rebind hx2 h3
    obtain ⟨-, rfl⟩ := updMsg_ok.mp h3
    refine ⟨hI3.of_eq fun b => ?_, ?_, Or.inr ⟨rfl, s, hs, hpar⟩⟩
    · simp only [Pi.add_apply, Pi.sub_apply]
      omega
    · rw [Store.get_modify_self, hx2]
      rfl

end

/-- The heap after the peer has opened a transaction: the circuit is held before its queue
    grows. -/
def peerHeap (h : Store Addr DmsgState) (n : Nat) (p : Addr) (c : DmsgState) :
    Store Addr DmsgState :=
  ((h.insert (.dyn n) c).modify p fun s => { s with refs := s.refs + 1 }).modify p
    (subqPush (.dyn n))

theorem peerHeap_eq (h : Store Addr DmsgState) (n : Nat) (p : Addr) (c : DmsgState) :
    peerHeap h n p c = ((h.insert (.dyn n) c).modify p (subqPush (.dyn n))).modify p
      fun s => { s with refs := s.refs + 1 } := by
  rw [peerHeap, Store.modify_modify, Store.modify_modify]
  congr 1
  funext s
  simp only [Function.comp_apply, subqPush]
  split <;> rfl

/-- A transaction that the peer opens. References to the circuit and to `b`, what the message
    was bound to, are lost; the message's reference to the new state is in hand. -/
theorem Inv.peerOpened {n k : Nat} {c : DmsgState} (hI : Inv none e L t) (he : ∀ a, 0 ≤ e a)
    (hn : t.heap.get (.dyn n) = none) (hps : t.heap.get p = some ps) (hc : Fresh p c)
    (hopp : c.opposite = true ∧ c.iocom = i) :
    Inv none (e + one (.dyn n) - one b) (t.forgets n i k p b ++ t.lost)
      { t with
        heap := peerHeap t.heap n p c
        staterd := rbInsert t.staterd i k (.dyn n)
        lost := t.forgets n i k p b ++ t.lost } := by
  have hpn : p ≠ .dyn n := by
    rintro rfl
    rw [hn] at hps
    cases hps
  have hget := get_stacked (c := c) (f := subqPush (.dyn n)) hn hps
  have hgp := hget p
  rw [if_neg hpn, if_pos rfl] at hgp
  have hI1 := (hI.opened hn (he _) hps hc).hold (a := p) (u := ()) (update_ok.mpr ⟨⟨_, hgp⟩, rfl⟩)
  have hI2 := (hI1.forget (a := b)).forget (a := p)
  rw [← hI.lost] at hI2
  have hgn : (((t.heap.insert (.dyn n) c).modify p (subqPush (.dyn n))).modify p
      fun s => { s with refs := s.refs + 1 }).get (.dyn n) = some c := by
    rw [Store.get_modify_of_ne _ _ hpn.symm, hget, if_pos rfl]
  rw [peerHeap_eq, Trans.forgets]
  cases hf : rbFind t.staterd i k with
  | none =>
    have hI3 := hI2.insertRd (hI.fresh_inTree hn (he _)) hgn hopp hf
    refine (hI3.of_eq fun d => ?_).congr rfl rfl rfl rfl rfl rfl
    simp only [Pi.add_apply, Pi.sub_apply]
    omega
  | some d =>
    have hI3 := hI2.forget (a := .dyn n)
    refine (hI3.of_eq fun d => ?_).congr rfl rfl ?_ rfl rfl rfl
    · simp only [Pi.add_apply, Pi.sub_apply]
      omega
    · rw [rbInsert, if_neg (by rw [hf]; simp)]

variable {er : RxResult} {y : TransMsg}

section

variable (hI : Inv none e L t)
include hI

theorem Inv.rxOpen {c : Addr} (he : ∀ a, 0 ≤ e a) (hy : t.msgs.get m = some y)
    (h : rxOpen env i m x p t = .ok (c, t')) :
    (∃ n, Inv none e (t.forgets n i x.msgid p y.state ++ L) t') ∧
      t'.msgs.get m = some { y with state := c } ∧
      ∃ ps, t'.heap.get c = some (peerState i p ps x) := by
  simp only [Dmsg.rxOpen, bind_ok_iff, newState_ok, deref_ok, getMsg_ok, modifyT_ok, subqInsert,
    pure_ok_iff] at h
  obtain ⟨ps, t, ⟨hps, rfl⟩, n, t, ⟨-, hn, rfl⟩, y', t, ⟨hy', rfl⟩, _, _, rfl, _, t2, h2, _, t3,
    h3, _, t4, h4, rfl, rfl⟩ := h
  rw [hy] at hy'
  cases hy'
  have hI1 := hI.peerOpened (b := y.state) (i := i) (k := x.msgid) (c := peerState i p ps x) he hn
    hps ⟨rfl, rfl, rfl, rfl, rfl, rfl⟩ ⟨rfl, rfl⟩
  obtain ⟨-, rfl⟩ := update_ok.mp h2
  obtain ⟨-, rfl⟩ := update_ok.mp h3
  have hI2 := hI1.rebind hy h4
  obtain ⟨-, rfl⟩ := updMsg_ok.mp h4
  have hpn : p ≠ .dyn n := by
    rintro rfl
    rw [hn] at hps
    cases hps
  refine ⟨⟨n, ?_⟩, ?_, ps, ?_⟩
  · rw [← hI.lost]
    refine hI2.of_eq fun d => ?_
    simp only [Pi.add_apply, Pi.sub_apply]
    omega
  · rw [Store.get_modify_self, hy]
    rfl
  · rw [Store.get_modify_of_ne _ _ hpn.symm, Store.get_modify_of_ne _ _ hpn.symm,
      Store.get_insert _ _ _ _ hn, if_pos rfl]

/-- After the switch: the message is bound to a state as before, or to a new one. -/
def Switched (x y : TransMsg) (m : Nat) (t : Trans) : Prop :=
  ∃ z, t.msgs.get m = some z ∧ z.toTransHdr = y.toTransHdr ∧ (x.cmd.opens = true →
    ∃ zs, t.heap.get z.state = some zs ∧ zs.subinserted = true ∧ zs.relay = none ∧
      zs.txcmd.delete = false)

/-- What `rxSwitch` has lost: nothing, or what a transaction that is opened loses. -/
def SwitchLost (t : Trans) (i : Nat) (x y : TransMsg) (q : Option Addr) (a : Addr)
    (new : List Addr) : Prop :=
  x.cmd.opens = false ∧ new = [] ∨
    x.cmd.opens = true ∧ q = some a ∧ ∃ n, new = t.forgets n i x.msgid a y.state

theorem Inv.rxSwitch {c : Addr} {q : Option Addr} (he : ∀ a, 0 ≤ e a) (hy : t.msgs.get m = some y)
    (h : rxSwitch env i m x q a t = .ok ((c, er), t')) :
    ∃ new, SwitchLost t i x y q a new ∧ Inv none e (new ++ L) t' ∧ Switched x y m t' := by
  have hkeep : x.cmd.opens = false → Inv none e L t' → t'.msgs = t.msgs →
      ∃ new, SwitchLost t i x y q a new ∧ Inv none e (new ++ L) t' ∧ Switched x y m t' :=
    fun hno hI' hm => ⟨[], Or.inl ⟨hno, rfl⟩, hI', y, hm ▸ hy, rfl,
      fun ho => by rw [hno] at ho; cases ho⟩
  rcases rxSwitch_cases h with ⟨ho, hq, -, h⟩ | ⟨hc, hr, -, -, h⟩ | ⟨hc, -, -, h⟩ | ⟨hc, -, -, h⟩
  · obtain ⟨⟨n, hI1⟩, hm, ps, hcs⟩ := hI.rxOpen he hy h
    exact ⟨_, Or.inr ⟨ho, hq, n, rfl⟩, hI1, _, hm, rfl, fun _ => ⟨_, hcs, rfl, rfl, rfl⟩⟩
  · obtain ⟨-, s, -, -, hupd⟩ := rxReply_ok h
    have hI1 := hI.update_inert hupd fun s _ => .of_fields rfl
    obtain ⟨-, rfl⟩ := update_ok.mp hupd
    exact hkeep (by rw [Cmd.opens, hc, hr]; rfl) hI1 rfl
  · obtain ⟨rfl, -⟩ := rxDelete_ok.mp h
    exact hkeep (by rw [Cmd.opens, hc]; rfl) hI rfl
  · obtain ⟨rfl, -⟩ := rxStream_ok.mp h
    exact hkeep (by rw [Cmd.opens, hc]; rfl) hI rfl

theorem Inv.rxTcmd (hS : Switched x y m t) (h : rxTcmd m x a t = .ok (u, t')) :
    Inv none e L t' ∧ Switched x y m t' := by
  simp only [Dmsg.rxTcmd, bind_ok_iff, getMsg_ok, deref_ok] at h
  obtain ⟨y', t, ⟨hy, rfl⟩, ys, t, ⟨-, rfl⟩, s, t, ⟨-, rfl⟩, h⟩ := h
  refine ⟨hI.updMsg h fun _ => rfl, ?_⟩
  obtain ⟨-, rfl⟩ := updMsg_ok.mp h
  obtain ⟨z, hz, hhdr, hopen⟩ := hS
  exact ⟨_, Store.get_modify_some _ hz, hhdr, hopen⟩

/-- A received DELETE frees no state that a message is bound to. -/
theorem Inv.rxClose (hs : t.heap.get a = some s) (h : rxClose x a s t = .ok (u, t')) :
    Inv none e L t' ∧ t'.msgs = t.msgs ∧ (s.txcmd.delete = false →
      t'.heap = t.heap.modify a DmsgState.rxDeleted) := by
  simp only [Dmsg.rxClose, bind_ok_iff, check_ok] at h
  obtain ⟨_, t, ⟨-, rfl⟩, _, t1, h1, h2⟩ := h
  have hI1 := hI.update_inert h1 fun s _ => .of_fields rfl
  obtain ⟨-, rfl⟩ := update_ok.mp h1
  rcases whenT_ok.mp h2 with ⟨htx, h2⟩ | ⟨-, rfl⟩
  · rw [bind_ok_iff] at h2
    obtain ⟨_, t2, h2, h3⟩ := h2
    have hs1 := Store.get_modify_some DmsgState.rxDeleted hs
    obtain ⟨hI2, -, hm2, -⟩ := hI1.rbUnlink hs1 h2
    have hI3 := hI2.drop h3 (fun hc => by cases hc)
    rw [add_sub_cancel_right] at hI3
    exact ⟨hI3, (drop_msgs h3).trans hm2, fun hc => by rw [htx] at hc; cases hc⟩
  · exact ⟨hI1, rfl, fun _ => rfl⟩

theorem Inv.rxCommit (hS : Switched x y m t) (h : rxCommit i m x a t = .ok (u, t')) :
    Inv none e L t' ∧ Switched x y m t' := by
  simp only [Dmsg.rxCommit, bind_ok_iff, getMsg_ok, deref_ok, check_ok] at h
  obtain ⟨z, t, ⟨hz, rfl⟩, zs, t, ⟨hzs, rfl⟩, _, t, ⟨-, rfl⟩, _, t, ⟨rfl, rfl⟩, h⟩ := h
  rcases whenT_ok.mp h with ⟨-, h⟩ | ⟨-, rfl⟩
  · obtain ⟨hI1, hm, hheap⟩ := hI.rxClose hzs h
    obtain ⟨z', hz', hhdr, hopen⟩ := hS
    rw [hz] at hz'
    cases hz'
    refine ⟨hI1, z, hm ▸ hz, hhdr, fun ho => ?_⟩
    obtain ⟨zs', hzs', hsub, hrel, htx⟩ := hopen ho
    rw [hzs] at hzs'
    cases hzs'
    rw [hheap htx]
    exact ⟨_, Store.get_modify_some _ hzs, hsub, hrel, htx⟩
  · exact ⟨hI, hS⟩

theorem Inv.rxMatched {q : Option Addr} (he : ∀ a, 0 ≤ e a) (hy : t.msgs.get m = some y)
    (h : rxMatched env i m x q a t = .ok (er, t')) :
    ∃ new, SwitchLost t i x y q a new ∧ Inv none e (new ++ L) t' ∧ Switched x y m t' := by
  simp only [Dmsg.rxMatched, bind_ok_iff] at h
  obtain ⟨⟨c, er'⟩, t1, h1, h⟩ := h
  simp only [pure_ok_iff] at h
  obtain ⟨_, t2, h2, _, t3, h3, rfl, rfl⟩ := h
  obtain ⟨new, hnew, hI1, hS1⟩ := hI.rxSwitch he hy h1
  obtain ⟨hI2, hS2⟩ := hI1.rxTcmd hS1 h2
  exact ⟨new, hnew, hI2.rxCommit hS2 h3⟩

end

/-- What is found in the trees is a transaction. -/
theorem Inv.rxFind_dyn {rev : Bool} {k : Nat} (hI : Inv none e L t)
    (h : rxFind t i rev k = some a) : ∃ n, a = .dyn n := by
  cases rev with
  | true => exact ⟨_, (hI.wr _ (mem_of_rbFind h)).1⟩
  | false => exact (hI.rd _ (mem_of_rbFind h)).1

/-- The message opens a transaction on a circuit that exists. -/
def Accepts (t : Trans) (i : Nat) (h : TransHdr) : Prop :=
  h.cmd.opens = true ∧ rxCircuit t i h ≠ none

/-- The references that a received message makes the process lose; `n` is the new state. -/
def Trans.loses (t : Trans) (n i : Nat) (h : TransHdr) : List Addr :=
  match rxCircuit t i h with
  | some p => if h.cmd.opens then t.forgets n i h.msgid p (.root i) else []
  | none => []

/-- After `dmsg_state_msgrx`, a transaction that was opened has its place and no relay. -/
def Received (x : TransMsg) (m : Nat) (er : RxResult) (t : Trans) : Prop :=
  ∃ z, t.msgs.get m = some z ∧ z.toTransHdr = x.toTransHdr ∧ (er = .ok → x.cmd.opens = true →
    ∃ zs, t.heap.get z.state = some zs ∧ zs.subinserted = true ∧ zs.relay = none)

theorem dmsgStateMsgrx_ok {mstate : Bool} (h : dmsgStateMsgrx env m mstate t = .ok (er, t')) :
    ∃ x s t1 t2, t.msgs.get m = some x ∧ t.heap.get x.state = some s ∧
      lock env (.iocom s.iocom) t = .ok ((), t1) ∧ unlock env (.iocom s.iocom) t2 = .ok ((), t') ∧
      ((mstate = true ∧ rxMatched env s.iocom m x s.parent x.state t1 = .ok (er, t2)) ∨
       (mstate = false ∧ rxCircuit t1 s.iocom x.toTransHdr = none ∧ er = .ealready ∧ t2 = t1) ∨
       (mstate = false ∧ ∃ p c t3, rxCircuit t1 s.iocom x.toTransHdr = some p ∧
          rxBind m x p (rxState t1 s.iocom x.toTransHdr) t1 = .ok (c, t3) ∧
          rxMatched env s.iocom m x (some p) c t3 = .ok (er, t2))) := by
  simp only [dmsgStateMsgrx, bind_ok_iff, getMsg_ok, deref_ok, pure_ok_iff] at h
  obtain ⟨x, t, ⟨hx, rfl⟩, s, t, ⟨hs, rfl⟩, ⟨⟩, t1, h1, er, t2, h2, ⟨⟩, t3, h3, rfl, rfl⟩ := h
  refine ⟨x, s, t1, t2, hx, hs, h1, h3, ?_⟩
  cases mstate with
  | true => exact Or.inl ⟨rfl, h2⟩
  | false =>
    rw [rxLocked, if_neg (by simp)] at h2
    cases hc : rxCircuit t1 s.iocom x.toTransHdr with
    | none =>
      rw [hc] at h2
      cases h2
      exact Or.inr (Or.inl ⟨rfl, rfl, rfl, rfl⟩)
    | some p =>
      rw [hc] at h2
      simp only [bind_ok_iff] at h2
      obtain ⟨c, t4, h4, h5⟩ := h2
      exact Or.inr (Or.inr ⟨rfl, p, c, t4, rfl, h4, h5⟩)

theorem Inv.msgrx (hI : Inv none e L t) (he : ∀ a, 0 ≤ e a) (hx : t.msgs.get m = some x)
    (hst : x.state = .root i) (hs : t.heap.get (.root i) = some s) (hi : s.iocom = i)
    (h : dmsgStateMsgrx env m false t = .ok (er, t')) :
    (∃ n, Inv none e (t.loses n i x.toTransHdr ++ L) t') ∧ Received x m er t' := by
  obtain ⟨x', s', t1, t2, hx', hs', h1, h2, hcases⟩ := dmsgStateMsgrx_ok h
  rw [hx] at hx'
  cases hx'
  rw [hst, hs] at hs'
  cases hs'
  rw [hi] at h1 h2 hcases
  have hI1 := hI.lock h1
  have heq1 := lock_ok h1
  have hloses : ∀ n, t1.loses n i x.toTransHdr = t.loses n i x.toTransHdr := by
    intro n
    rw [heq1]
    rfl
  have hx1 : t1.msgs.get m = some x := by rw [heq1]; exact hx
  have heq2 := unlock_ok h2
  rcases hcases with ⟨hc, -⟩ | ⟨-, hnone, rfl, rfl⟩ | ⟨-, p, c, t3, hp, h3, h4⟩
  · cases hc
  · refine ⟨⟨0, ?_⟩, x, by rw [heq2]; exact hx1, rfl, fun hc => by cases hc⟩
    rw [← hloses, Trans.loses, hnone]
    exact hI1.unlock h2
  · obtain ⟨hI3, hm3, hbind⟩ := hI1.rxBind hx1 h3
    obtain ⟨new, hnew, hI4, z, hz, hhdr, hopen⟩ := hI3.rxMatched he hm3 h4
    refine ⟨?_, z, by rw [heq2]; exact hz, hhdr, fun _ ho => ?_⟩
    · have hp' : ∀ n, t.loses n i x.toTransHdr =
          if x.cmd.opens then t1.forgets n i x.msgid p (.root i) else [] := by
        intro n
        rw [← hloses, Trans.loses, hp]
      simp only [hp']
      rcases hnew with ⟨hno, rfl⟩ | ⟨ho, hq, n, rfl⟩
      · exact ⟨0, by rw [hno]; exact hI4.unlock h2⟩
      rcases hbind with ⟨hnone, rfl⟩ | ⟨hfound, cs, hcs, hpar⟩
      · cases hq
        refine ⟨n, ?_⟩
        rw [if_pos ho, ← hst]
        rw [hnone] at hI4
        exact hI4.unlock h2
      · -- a transaction that was found is not its own circuit
        obtain ⟨k, rfl⟩ := hI1.rxFind_dyn hfound
        exact absurd (hpar.trans hq) ((hI3.shape _ cs hcs).ofDyn k rfl).2
    · obtain ⟨zs, hzs, hsub, hrel, -⟩ := hopen ho
      exact ⟨zs, by rw [heq2]; exact hzs, hsub, hrel⟩

/-- A simulated message opens nothing. -/
theorem Inv.msgrx_abort {n : Nat} (hI : Inv none e L t) (he : ∀ a, 0 ≤ e a)
    (hx : t.msgs.get m = some x) (hst : x.state = .dyn n)
    (h : dmsgStateMsgrx env m true t = .ok (er, t')) :
    Inv none e L t' ∧ x.cmd.opens = false ∧
      ∃ z, t'.msgs.get m = some z ∧ z.toTransHdr = x.toTransHdr := by
  obtain ⟨x', s, t1, t2, hx', hs, h1, h2, hcases⟩ := dmsgStateMsgrx_ok h
  rw [hx] at hx'
  cases hx'
  have heq1 := lock_ok h1
  have heq2 := unlock_ok h2
  rcases hcases with ⟨-, h3⟩ | ⟨hc, -⟩ | ⟨hc, -⟩
  · have hno : x.cmd.opens = false := by
      by_contra ho
      simp only [Dmsg.rxMatched, bind_ok_iff] at h3
      obtain ⟨⟨c, er'⟩, t3, h3, -⟩ := h3
      rcases rxSwitch_cases h3 with ⟨-, hp, -⟩ | ⟨hc, hr, -⟩ | ⟨hc, -⟩ | ⟨hc, -⟩
      · rw [hst] at hs hp
        exact ((hI.shape _ s hs).ofDyn n rfl).2 hp
      all_goals
        simp [Cmd.opens, hc] at ho
      rw [hr] at ho
      cases ho
    obtain ⟨new, hnew, hI2, z, hz, hhdr, -⟩ :=
      (hI.lock h1).rxMatched he (by rw [heq1]; exact hx) h3
    obtain rfl : new = [] := by
      rcases hnew with ⟨-, rfl⟩ | ⟨ho, -⟩
      · rfl
      · rw [hno] at ho
        cases ho
    exact ⟨hI2.unlock h2, hno, z, by rw [heq2]; exact hz, hhdr⟩
  · cases hc
  · cases hc

end Lh1.Dmsg
