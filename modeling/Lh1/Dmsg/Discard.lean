/-
  What `dmsg_state_msgrx` does with messages that lost a race.

  The first part is about the messages it tells the caller to throw away, the second about
  ABORTs and one-way messages on a circuit other than `state0`. Both are over every reachable
  state of the machine and every message; the conditions say which messages the source gets
  wrong:

  - a discarded message changes nothing, unless it has DELETE and its msgid names an open
    transaction: the DELETE is then carried out all the same (`discard_unchanged_iff`);
  - on a circuit, a message whose msgid is not open fails an assertion, unless it opens a
    transaction: `state` is then the circuit, but `msg->state` is still `state0`
    (`circuit_tolerates_iff`).
-/
import Lh1.Dmsg.RefRun

namespace Lh1.Dmsg

open Lh1.Lib

variable {env : Env} {e : Addr → ℤ} {L : List Addr} {t t' : Trans} {a b p : Addr}
  {s : DmsgState} {i m : Nat} {x : TransMsg} {u : Unit} {hdr : TransHdr} {aux : List UInt8}

/-- A state of the machine that some run leads to. -/
def Machine.Reachable (env : Env) (M : Machine) : Prop :=
  ∃ ins, run (step env) Machine.init ins = .ok M

theorem Machine.Reachable.inv {M : Machine} (h : M.Reachable env) :
    Dmsg.Inv none (inHand M.stack) M.t.lost M.t := by
  obtain ⟨ins, hrun⟩ := h
  exact (Machine.inv_init.run hrun).1.1

/-! ## The heap, address by address -/

theorem hold_get (h : dmsgStateHold a t = .ok (u, t')) (hs : t.heap.get a = some s) (b : Addr) :
    t'.heap.get b = if b = a then some { s with refs := s.refs + 1 } else t.heap.get b := by
  obtain ⟨-, rfl⟩ := update_ok.mp h
  rw [Store.get_modify]
  split
  · subst_vars
    rw [hs]
    rfl
  · rfl

theorem drop_get (h : dmsgStateDrop a t = .ok (u, t')) (hs : t.heap.get a = some s) (b : Addr) :
    t'.heap.get b = if b = a then
      if s.refs = 1 then none else some { s with refs := s.refs - 1 } else t.heap.get b := by
  obtain ⟨s', hs', -, ⟨hne, rfl⟩ | ⟨hone, -, -, -, rfl⟩⟩ := dmsgStateDrop_ok h
  all_goals
    rw [hs] at hs'
    cases hs'
  · rw [Store.get_modify, if_neg hne]
    split
    · subst_vars
      rw [hs]
      rfl
    · rfl
  · rw [Store.get_erase, if_pos hone]

theorem drop_trees (h : dmsgStateDrop a t = .ok (u, t')) :
    t'.staterd = t.staterd ∧ t'.statewr = t.statewr := by
  obtain ⟨s', -, -, ⟨-, rfl⟩ | ⟨-, -, -, -, rfl⟩⟩ := dmsgStateDrop_ok h <;> exact ⟨rfl, rfl⟩

/-- Freeing a message drops its state. -/
theorem msgFree_get (h : dmsgMsgFree env m t = .ok (u, t')) (hx : t.msgs.get m = some x)
    (hs : t.heap.get x.state = some s) : t'.staterd = t.staterd ∧ t'.statewr = t.statewr ∧
      ∀ b, t'.heap.get b = if b = x.state then
        if s.refs = 1 then none else some { s with refs := s.refs - 1 } else t.heap.get b := by
  simp only [dmsgMsgFree, dmsgMsgFreeLocked, bind_ok_iff, getMsg_ok, deref_ok, modifyT_ok] at h
  obtain ⟨x', t, ⟨hx', rfl⟩, s', t, ⟨-, rfl⟩, _, t1, h1, _, _, ⟨x'', t1, ⟨hx'', rfl⟩, _, t2, h2, rfl⟩,
    h3⟩ := h
  have heq1 := lock_ok h1
  have heq3 := unlock_ok h3
  rw [heq1, hx] at hx''
  cases hx''
  have hs1 : t1.heap.get x.state = some s := by rw [heq1]; exact hs
  obtain ⟨hr, hw⟩ := drop_trees h2
  rw [heq3]
  refine ⟨hr.trans (by rw [heq1]), hw.trans (by rw [heq1]), fun b => ?_⟩
  rw [drop_get h2 hs1 b, heq1]

/-- A message `x` has arrived in `t0` and is bound to `state0`, which has one reference more. -/
structure Arrival (t0 : Trans) (i m : Nat) (t : Trans) (x : TransMsg) (s0 : DmsgState) : Prop where
  msg : t.msgs.get m = some x
  state : x.state = .root i
  root : t0.heap.get (.root i) = some s0
  isRoot : s0.root = true
  iocom : s0.iocom = i
  pos : 0 < s0.refs
  staterd : t.staterd = t0.staterd
  statewr : t.statewr = t0.statewr
  get : ∀ b, t.heap.get b =
    if b = .root i then some { s0 with refs := s0.refs + 1 } else t0.heap.get b

theorem Inv.arrival (hI : Inv none e L t) (he : ∀ a, 0 ≤ e a)
    (h : Dmsg.ioqAlloc env i hdr aux t = .ok (m, t')) :
    ∃ x s0, x.toTransHdr = hdr ∧ Arrival t i m t' x s0 := by
  obtain ⟨-, hr, hw, hh, x, s, hx, rfl, hst, hs, hioc⟩ := hI.ioqAlloc he h
  rw [hh, Store.get_modify_self, Option.map_eq_some_iff] at hs
  obtain ⟨s0, hs0, rfl⟩ := hs
  have hS := hI.shape _ s0 hs0
  refine ⟨x, s0, rfl, ⟨hx, hst, hs0, (hS.ofRoot i rfl).1, hioc, hS.pos, hr, hw, fun b => ?_⟩⟩
  rw [hh, Store.get_modify]
  split
  · subst_vars
    rw [hs0]
    rfl
  · rfl

variable {s0 sa : DmsgState} {q : Option Addr} {t0 : Trans} {y : TransMsg}

/-- The lookups of `dmsg_state_msgrx` see the trees as they were. -/
theorem Arrival.cases {er : RxResult} (hA : Arrival t0 i m t x s0)
    (h : dmsgStateMsgrx env m false t = .ok (er, t')) : ∃ t1 t2, t1 = { t with held := t1.held } ∧
      t' = { t2 with held := t'.held } ∧
      ((rxCircuit t0 i x.toTransHdr = none ∧ er = .ealready ∧ t2 = t1) ∨
        ∃ p c t3, rxCircuit t0 i x.toTransHdr = some p ∧
          rxBind m x p (rxState t0 i x.toTransHdr) t1 = .ok (c, t3) ∧
          rxMatched env i m x (some p) c t3 = .ok (er, t2)) := by
  obtain ⟨x', s', t1, t2, hx', hs', hl, hu, hcases⟩ := dmsgStateMsgrx_ok h
  rw [hA.msg] at hx'
  cases hx'
  rw [hA.state, hA.get, if_pos rfl] at hs'
  cases hs'
  have heq := lock_ok hl
  refine ⟨t1, t2, heq, unlock_ok hu, ?_⟩
  dsimp only at hcases
  rw [hA.iocom] at hcases
  have hcirc : rxCircuit t1 i x.toTransHdr = rxCircuit t0 i x.toTransHdr := by
    rw [heq]
    simp only [rxCircuit, rxFind, hA.staterd, hA.statewr]
  have hstate : rxState t1 i x.toTransHdr = rxState t0 i x.toTransHdr := by
    rw [heq]
    simp only [rxState, rxFind, hA.staterd, hA.statewr]
  rw [hcirc, hstate] at hcases
  rcases hcases with ⟨hc, -⟩ | ⟨-, h⟩ | ⟨-, h⟩
  · cases hc
  · exact Or.inl h
  · exact Or.inr h

theorem Arrival.held (hA : Arrival t0 i m t x s0) (heq : t' = { t with held := t'.held }) :
    Arrival t0 i m t' x s0 := by
  rw [heq]
  exact ⟨hA.msg, hA.state, hA.root, hA.isRoot, hA.iocom, hA.pos, hA.staterd, hA.statewr, hA.get⟩

/-! ## Discarded messages -/

/-- The transaction state is the same: every state with all of its fields, and both trees. -/
def SameTrans (t t' : Trans) : Prop :=
  (∀ a, t'.heap.get a = t.heap.get a) ∧ t'.staterd = t.staterd ∧ t'.statewr = t.statewr

/-- With EALREADY the switch changes nothing. What is left is the DELETE. -/
theorem rxMatched_ealready {ys : DmsgState} (h : rxMatched env i m x q a t = .ok (.ealready, t'))
    (hy : t.msgs.get m = some y) (hys : t.heap.get y.state = some ys) : y.state = a ∧
    ∃ t1, t1.heap = t.heap ∧ t1.staterd = t.staterd ∧ t1.statewr = t.statewr ∧
      (∃ z, t1.msgs.get m = some z ∧ z.state = a) ∧
      whenT (ys.root = false ∧ x.cmd.delete = true) (rxClose x a ys) t1 = .ok ((), t') := by
  obtain ⟨z, zs, tc, t1, t2, h1, hz, hzs, hu, h2⟩ := rxMatched_ok h
  have hsw : z.state = a ∧ t1 = t := by
    rcases rxSwitch_cases h1 with ⟨-, -, hc, -⟩ | ⟨-, -, -, hc, -⟩ | ⟨-, -, hc, h⟩ | ⟨-, -, hc, h⟩
    · cases hc
    · cases hc
    · exact ⟨hc, (rxDelete_ok.mp h).1⟩
    · exact ⟨hc, (rxStream_ok.mp h).1⟩
  obtain ⟨hst, rfl⟩ := hsw
  rw [hy] at hz
  cases hz
  rw [hys] at hzs
  cases hzs
  rw [hst] at h2
  refine ⟨hst, t2, ?_⟩
  obtain ⟨-, rfl⟩ := updMsg_ok.mp hu
  exact ⟨rfl, rfl, rfl, ⟨_, Store.get_modify_some _ hy, hst⟩, h2⟩

/-- After a received DELETE the state is gone or says so. -/
theorem rxClose_delete (h : rxClose x a s t = .ok (u, t')) (hs : t.heap.get a = some s) :
    s.rxcmd.delete = false ∧ t'.msgs = t.msgs ∧
      ∀ s', t'.heap.get a = some s' → s'.rxcmd.delete = true := by
  simp only [rxClose, bind_ok_iff, check_ok, update_ok] at h
  obtain ⟨_, t, ⟨hdel, rfl⟩, _, _, ⟨-, rfl⟩, h⟩ := h
  refine ⟨hdel, ?_⟩
  have hs1 := Store.get_modify_some DmsgState.rxDeleted hs
  rcases whenT_ok.mp h with ⟨-, h⟩ | ⟨-, rfl⟩
  · simp only [rbUnlink, bind_ok_iff, check_ok, update_ok] at h
    obtain ⟨_, _, ⟨_, _, ⟨-, rfl⟩, _, _, ⟨-, rfl⟩, _, t2, h2, ⟨-, rfl⟩⟩, h3⟩ := h
    obtain ⟨hh, hm⟩ := rbRemove_heap h2
    dsimp only at hh hm
    have hs2 := Store.get_modify_some (fun s => { s with rbinserted := false }) hs1
    rw [← hh] at hs2
    refine ⟨(drop_msgs h3).trans hm, fun s' hs' => ?_⟩
    rw [drop_get h3 hs2, if_pos rfl] at hs'
    split at hs'
    · cases hs'
    · cases hs'
      rfl
  · refine ⟨rfl, fun s' hs' => ?_⟩
    rw [hs1] at hs'
    cases hs'
    rfl

/-- The state was taken once more and is dropped again. -/
theorem free_held (h : dmsgMsgFree env m t = .ok (u, t')) (hx : t.msgs.get m = some x)
    (hs : t0.heap.get x.state = some s) (hpos : 0 < s.refs) (hget : ∀ b, t.heap.get b =
      if b = x.state then some { s with refs := s.refs + 1 } else t0.heap.get b)
    (hr : t.staterd = t0.staterd) (hw : t.statewr = t0.statewr) : SameTrans t0 t' := by
  have hs' := hget x.state
  rw [if_pos rfl] at hs'
  obtain ⟨hr', hw', hget'⟩ := msgFree_get h hx hs'
  refine ⟨fun b => ?_, hr'.trans hr, hw'.trans hw⟩
  rw [hget' b, hget b]
  by_cases hb : b = x.state
  · rw [if_pos hb, if_neg (by dsimp only; omega), hb, hs]
    rfl
  · rw [if_neg hb, if_neg hb]

/-- Binding a message to an open transaction moves its reference there from `state0`. -/
theorem Arrival.rxBind {c : Addr} (hA : Arrival t0 i m t x s0)
    (h : rxBind m x p (some a) t = .ok (c, t')) (hne : a ≠ .root i)
    (hsa : t0.heap.get a = some sa) :
    c = a ∧ sa.parent = some p ∧ t'.msgs.get m = some { x with state := a } ∧
      t'.staterd = t0.staterd ∧ t'.statewr = t0.statewr ∧
      ∀ b, t'.heap.get b = if b = a then some { sa with refs := sa.refs + 1 } else t0.heap.get b := by
  simp only [Dmsg.rxBind, bind_ok_iff, deref_ok, check_ok, pure_ok_iff] at h
  obtain ⟨_, t1, h1, _, t2, h2, _, t3, h3, s, t3, ⟨hs, rfl⟩, _, t3, ⟨hpar, rfl⟩, rfl, rfl⟩ := h
  obtain ⟨-, rfl⟩ := updMsg_ok.mp h3
  have hroot := hA.get (.root i)
  have hpos := hA.pos
  rw [if_pos rfl] at hroot
  rw [hA.state] at h1
  have hsa1 : t1.heap.get c = some sa := by
    rw [drop_get h1 hroot, if_neg hne, hA.get, if_neg hne, hsa]
  have hget2 : ∀ b, t2.heap.get b =
      if b = c then some { sa with refs := sa.refs + 1 } else t0.heap.get b := by
    intro b
    rw [hold_get h2 hsa1 b]
    by_cases hb : b = c
    · rw [if_pos hb, if_pos hb]
    · rw [if_neg hb, if_neg hb, drop_get h1 hroot, hA.get b]
      by_cases hbr : b = .root i
      · rw [if_pos hbr, if_neg (by dsimp only; omega), hbr, hA.root]
        rfl
      · rw [if_neg hbr, if_neg hbr]
  have hs' := hget2 c
  rw [if_pos rfl] at hs'
  dsimp only at hs
  rw [hs'] at hs
  cases hs
  obtain ⟨hr, hw⟩ := drop_trees h1
  have hm2 : t2.msgs.get m = some x ∧ t2.staterd = t0.staterd ∧ t2.statewr = t0.statewr := by
    obtain ⟨-, rfl⟩ := update_ok.mp h2
    exact ⟨drop_msgs h1 ▸ hA.msg, hr.trans hA.staterd, hw.trans hA.statewr⟩
  exact ⟨rfl, hpar, Store.get_modify_some _ hm2.1, hm2.2.1, hm2.2.2, hget2⟩

/-- What is found in a tree is a transaction, and it is there. -/
theorem Inv.rxFind_some {rev : Bool} {k : Nat} (hI : Inv none e L t) (he : ∀ a, 0 ≤ e a)
    (h : rxFind t i rev k = some a) : (∃ n, a = .dyn n) ∧
      ∃ s, t.heap.get a = some s ∧ s.root = false ∧ s.iocom = i ∧ 0 < s.refs := by
  have hmem := mem_of_rbFind (show rbFind (if rev then t.statewr else t.staterd) i k = some a from h)
  have hin : t.inTree a = true := by
    have := List.mem_map_of_mem (f := Prod.snd) hmem
    simp only [Trans.inTree, Bool.or_eq_true, decide_eq_true_eq]
    cases rev with
    | true => exact Or.inr this
    | false => exact Or.inl this
  obtain ⟨s, hs⟩ := hI.alive (he a) (Or.inl (by
    simp only [Trans.pointers, hin, Bool.toNat_true]
    omega))
  have hentry : (∃ n, a = .dyn n) ∧ s.iocom = i := by
    cases rev with
    | true => exact ⟨⟨k, (hI.wr _ hmem).1⟩, ((hI.wr _ hmem).2 s hs).2⟩
    | false => exact ⟨(hI.rd _ hmem).1, ((hI.rd _ hmem).2 s hs).2⟩
  obtain ⟨⟨n, rfl⟩, hioc⟩ := hentry
  have hS := hI.shape _ s hs
  exact ⟨⟨n, rfl⟩, s, hs, (hS.ofDyn n rfl).1, hioc, hS.pos⟩

/-- A DELETE that is thrown away was carried out. -/
theorem close_changes {t2 t3 : Trans} {s1 : DmsgState} {z : TransMsg}
    (hsa : t0.heap.get a = some sa) (h : rxClose x a s1 t = .ok (u, t'))
    (hget : t.heap.get a = some s1) (hdel : s1.rxcmd.delete = sa.rxcmd.delete)
    (hz : t.msgs.get m = some z) (hst : z.state = a) (hh : t2.heap = t'.heap)
    (hm : t2.msgs = t'.msgs) (hf : dmsgMsgFree env m t2 = .ok (u, t3)) : ¬ SameTrans t0 t3 := by
  obtain ⟨hno, hm', hgone⟩ := rxClose_delete h hget
  rintro ⟨hsame, -⟩
  have hz2 : t2.msgs.get m = some z := by rw [hm, hm', hz]
  obtain ⟨s2, hs2⟩ : ∃ s2, t2.heap.get a = some s2 := by
    simp only [dmsgMsgFree, bind_ok_iff, getMsg_ok, deref_ok] at hf
    obtain ⟨z', t2, ⟨hz', rfl⟩, s2, t2, ⟨hs2, rfl⟩, -⟩ := hf
    rw [hz2] at hz'
    cases hz'
    exact ⟨s2, hst ▸ hs2⟩
  have hdel2 : s2.rxcmd.delete = true := hgone s2 (hh ▸ hs2)
  obtain ⟨-, -, hget3⟩ := msgFree_get hf hz2 (hst ▸ hs2)
  have h3 := hget3 a
  rw [if_pos hst.symm, hsame a, hsa] at h3
  split at h3
  · cases h3
  · cases h3
    rw [← hdel, hno] at hdel2
    cases hdel2

/-- A message that is thrown away leaves no trace, unless it has DELETE and is for a transaction
    that is open. -/
theorem discard_unchanged_iff (env : Env) (M : Machine) (hM : M.Reachable env) (i : Nat)
    (hdr : TransHdr) (aux : List UInt8) (t' : Trans)
    (h : ioqRead env i hdr aux M.t = .ok (none, t')) :
    SameTrans M.t t' ↔ ¬ (hdr.cmd.delete = true ∧ rxCircuit M.t i hdr ≠ none ∧
      rxState M.t i hdr ≠ none) := by
  have hI := hM.inv
  have he := inHand_nonneg M.stack
  simp only [ioqRead, bind_ok_iff] at h
  obtain ⟨m, t1, h1, er, t2, h2, h3⟩ := h
  obtain ⟨x, s0, rfl, hA⟩ := hI.arrival he h1
  obtain rfl : er = .ealready := by
    cases er with
    | ealready => rfl
    | ok => exact absurd (pure_ok_iff.mp h3).1 (by simp)
  simp only [bind_ok_iff, pure_ok_iff] at h3
  obtain ⟨_, t3, h3, -, rfl⟩ := h3
  obtain ⟨ta, tb, hta, htb, ⟨hcirc, -, rfl⟩ | ⟨p, c, tc, hcirc, hbind, hmatch⟩⟩ := hA.cases h2
  · -- the circuit is gone
    have hA2 := (hA.held hta).held htb
    have hsame := free_held h3 hA2.msg (hA2.state ▸ hA2.root) hA2.pos
      (by rw [hA2.state]; exact hA2.get) hA2.staterd hA2.statewr
    simp [hsame, hcirc]
  · have hAa := hA.held hta
    cases hfound : rxState M.t i x.toTransHdr with
    | none =>
      -- no transaction: the message is still bound to `state0`, which is never closed
      rw [hfound] at hbind
      obtain ⟨rfl, rfl⟩ := pure_ok_iff.mp hbind
      have hroot := hAa.get (.root i)
      rw [if_pos rfl] at hroot
      obtain ⟨hst, td, hh, hr, hw, ⟨z, hz, hzst⟩, hclose⟩ :=
        rxMatched_ealready hmatch hAa.msg (hAa.state ▸ hroot)
      rcases whenT_ok.mp hclose with ⟨⟨hc, -⟩, -⟩ | ⟨-, rfl⟩
      · rw [hAa.isRoot] at hc
        cases hc
      · have hzr : z.state = .root i := by rw [hzst, ← hst, hAa.state]
        have hsame : SameTrans M.t t' := by
          refine free_held h3 (by rw [htb]; exact hz) (hzr ▸ hAa.root) hAa.pos ?_
            (by rw [htb]; exact hr.trans hAa.staterd) (by rw [htb]; exact hw.trans hAa.statewr)
          intro b
          rw [htb, hzr]
          dsimp only
          rw [hh, hAa.get b]
        simp [hsame]
    | some a =>
      rw [hfound] at hbind
      obtain ⟨⟨n, rfl⟩, sa, hsa, hroot, -, hpos⟩ := hI.rxFind_some he hfound
      obtain ⟨rfl, -, hmc, hrc, hwc, hgetc⟩ := hAa.rxBind hbind (by simp) hsa
      have hac := hgetc (.dyn n)
      rw [if_pos rfl] at hac
      obtain ⟨-, td, hh, hr, hw, ⟨z, hz, hzst⟩, hclose⟩ := rxMatched_ealready hmatch hmc hac
      rcases whenT_ok.mp hclose with ⟨⟨-, hdel⟩, hcl⟩ | ⟨hno, rfl⟩
      · have hchanged := close_changes hsa hcl (by rw [hh]; exact hac) rfl hz hzst
          (by rw [htb]) (by rw [htb]) h3
        simp [hchanged, hdel, hcirc]
      · have hsame : SameTrans M.t t' := by
          refine free_held h3 (by rw [htb]; exact hz) (hzst ▸ hsa) hpos ?_
            (by rw [htb]; exact hr.trans hrc) (by rw [htb]; exact hw.trans hwc)
          intro b
          rw [htb, hzst]
          dsimp only
          rw [hh, hgetc b]
        have hdel : x.cmd.delete = false := by
          by_contra hc
          exact hno ⟨hroot, by simpa using hc⟩
        simp [hsame, hdel]

/-- A transaction is opened here and its CREATE is queued. -/
def openRun : List Input :=
  [.connect 0, .call (.alloc (.root 0) [] { create := true, base := 1 } .user false), .run,
    .call (.write 1), .run, .run, .run, .run, .run]

/-- The header of a message of one unit on circuit 0. -/
def onRoot (cmd : Cmd) (msgid : Nat) : TransHdr :=
  { cmd := { cmd with base := 1 }, msgid := msgid, circuit := 0 }

theorem discard_unchanged_unknown : ∃ (M : Machine) (t' : Trans), M.Reachable .bump ∧
    ioqRead .bump 0 (onRoot { delete := true, abort := true } 9) [] M.t = .ok (none, t') ∧
    SameTrans M.t t' :=
  ⟨_, _, ⟨openRun, rfl⟩, rfl, (discard_unchanged_iff .bump _ ⟨openRun, rfl⟩ 0
    (onRoot { delete := true, abort := true } 9) [] _ rfl).mpr fun h => h.2.2 rfl⟩

/-- The peer's ABORT overtakes its reply to the CREATE. It is thrown away, and the transaction
    counts as closed by the peer all the same. -/
theorem discard_deletes : ∃ (M : Machine) (t' : Trans) (s s' : DmsgState), M.Reachable .bump ∧
    ioqRead .bump 0 (onRoot { delete := true, abort := true, reply := true, revtrans := true } 1) []
      M.t = .ok (none, t') ∧
    M.t.heap.get (.dyn 1) = some s ∧ s.rxcmd.delete = false ∧
    t'.heap.get (.dyn 1) = some s' ∧ s'.rxcmd.delete = true :=
  ⟨_, _, _, _, ⟨openRun, rfl⟩, rfl, rfl, rfl, rfl, rfl⟩

/-! ## Messages on a circuit -/

theorem avoids_rxCommit {ys : DmsgState} (hy : t.msgs.get m = some y)
    (hys : t.heap.get y.state = some ys) : Avoids Fault.IsAssert (rxCommit i m x a) t ↔
      ys.iocom = i ∧ y.state = a ∧
        (ys.root = false ∧ x.cmd.delete = true → Avoids Fault.IsAssert (rxClose x a ys) t) := by
  rw [rxCommit, avoids_bind_ok (getMsg_ok.mpr ⟨hy, rfl⟩), avoids_bind_ok (deref_ok.mpr ⟨hys, rfl⟩)]
  simp only [avoids_bind, avoids_check, check_ok, avoids_whenT]
  constructor
  · rintro ⟨hioc, h⟩
    obtain ⟨hst, h⟩ := h () t ⟨hioc, rfl⟩
    exact ⟨hioc, hst, h () t ⟨hst, rfl⟩⟩
  · rintro ⟨hioc, hst, h⟩
    refine ⟨hioc, ?_⟩
    rintro _ t ⟨-, rfl⟩
    refine ⟨hst, ?_⟩
    rintro _ t ⟨-, rfl⟩
    exact h

/-- What is asserted after the switch has chosen the state `a`. -/
theorem avoids_rxMatched {er : RxResult} {ys : DmsgState}
    (hsw : rxSwitch env i m x q b t = .ok ((a, er), t')) (hy : t'.msgs.get m = some y)
    (hys : t'.heap.get y.state = some ys) (hs : t'.heap.get a = some s)
    (hcl : ys.root = false → x.cmd.delete = true →
      ys.rxcmd.delete = false ∧ ys.txcmd.delete = false) :
    Avoids Fault.IsAssert (rxMatched env i m x q b) t ↔ ys.iocom = i ∧ y.state = a := by
  obtain ⟨t1, y1, htc, hy1, hst1, hh1⟩ : ∃ t1 y1, rxTcmd m x a t' = .ok ((), t1) ∧
      t1.msgs.get m = some y1 ∧ y1.state = y.state ∧ t1.heap = t'.heap := by
    simp only [rxTcmd, bind_ok_iff, getMsg_ok, deref_ok, updMsg_ok]
    exact ⟨_, _, ⟨y, t', ⟨hy, rfl⟩, ys, t', ⟨hys, rfl⟩, s, t', ⟨hs, rfl⟩, ⟨y, hy⟩, rfl⟩,
      Store.get_modify_some _ hy, rfl, rfl⟩
  rw [rxMatched, avoids_bind_ok hsw]
  dsimp only
  rw [avoids_bind_ok htc, avoids_bind, avoids_rxCommit hy1 (by rw [hh1, hst1, hys]), hst1]
  constructor
  · rintro ⟨⟨hioc, hst, -⟩, -⟩
    exact ⟨hioc, hst⟩
  · rintro ⟨hioc, hst⟩
    refine ⟨⟨hioc, hst, fun ⟨hroot, hdel⟩ => ?_⟩, fun _ _ _ => avoids_pure _⟩
    obtain ⟨hrx, htx⟩ := hcl hroot hdel
    simp [rxClose, avoids_bind, hrx, htx]

/-- Without CREATE the switch changes nothing. -/
theorem rxSwitch_old (env : Env) (i m : Nat) (hs : t.heap.get a = some s)
    (hc : x.cmd.create = false) (hd : x.cmd.delete = true → q = some a ∧ x.cmd.abort = true) :
    ∃ er, rxSwitch env i m x q a t = .ok ((a, er), t) := by
  cases hdel : x.cmd.delete with
  | true =>
    obtain ⟨hq, hab⟩ := hd hdel
    refine ⟨.ealready, ?_⟩
    simp only [rxSwitch, hc, hdel, bind_ok_iff, rxDelete_ok, pure_ok_iff]
    exact ⟨_, t, ⟨rfl, s, hs, Or.inl ⟨Or.inl hq, hab, rfl⟩⟩, rfl, rfl⟩
  | false =>
    simp only [rxSwitch, hc, hdel, bind_ok_iff, rxStream_ok, pure_ok_iff]
    exact ⟨_, _, t, ⟨rfl, s, hs, rfl⟩, rfl, rfl⟩

/-- A CREATE for a msgid that is not open is accepted. -/
theorem Inv.avoids_opens (hI : Inv none e L t) (he : ∀ a, 0 ≤ e a) (hy : t.msgs.get m = some y)
    (ho : x.cmd.opens = true) : Avoids Fault.IsAssert (Dmsg.rxMatched env i m x (some p) p) t := by
  have hcr : x.cmd.create = true ∧ x.cmd.reply = false := by simpa [Cmd.opens] using ho
  by_cases hok : ∃ r t', Dmsg.rxSwitch env i m x (some p) p t = .ok (r, t')
  · obtain ⟨⟨c, er⟩, t', h1⟩ := hok
    rcases rxSwitch_cases h1 with ⟨-, -, -, h⟩ | ⟨-, hr, -⟩ | ⟨hc, -⟩ | ⟨hc, -⟩
    · obtain ⟨-, hm, ps, hcs⟩ := hI.rxOpen he hy h
      exact (avoids_rxMatched h1 hm hcs hcs fun _ _ => ⟨rfl, rfl⟩).mpr ⟨rfl, rfl⟩
    · rw [hcr.2] at hr
      cases hr
    all_goals
      rw [hcr.1] at hc
      cases hc
  · rw [Dmsg.rxMatched, avoids_bind]
    refine ⟨?_, fun r t' h => absurd ⟨r, t', h⟩ hok⟩
    simp only [Dmsg.rxSwitch, hcr, avoids_bind, Dmsg.rxOpen, dmsgStateHold, subqInsert, avoids_check,
      avoids_deref, avoids_newState, avoids_getMsg, avoids_modifyT, avoids_update, avoids_updMsg,
      avoids_pure, implies_true, and_true]

section

variable (hA : Arrival t0 i m t x s0)
include hA

/-- The mutex is free when the message is there: the allocation took it and gave it back. -/
theorem Arrival.lock (h : ioqAlloc env i hdr aux t0 = .ok (m, t)) :
    ∃ t1, Dmsg.lock env (.iocom i) t = .ok ((), t1) := by
  simp only [ioqAlloc, dmsgMsgAlloc, dmsgMsgAllocLocked, allocState, Cmd.opens, Bool.false_and,
    Bool.false_eq_true, if_false, bind_ok_iff, deref_ok, dmsgStateHold, update_ok, nonNull_ok,
    check_ok, newMsg_ok, updMsg_ok, pure_ok_iff] at h
  obtain ⟨_, _, ⟨s, t, ⟨hs, rfl⟩, _, t1, h1, _, _, ⟨⟨_, _⟩, _, ⟨_, _, ⟨-, rfl⟩, _, _, ⟨-, rfl⟩, _, _,
    ⟨-, rfl⟩, -, rfl⟩, _, _, ⟨-, rfl⟩, _, _, ⟨-, rfl⟩, _, _, ⟨-, rfl⟩, -, -, rfl⟩, _, t2, h2, -, rfl⟩,
    _, _, ⟨-, rfl⟩, -, rfl⟩ := h
  rw [hA.root] at hs
  cases hs
  rw [hA.iocom] at h1 h2
  cases hlk : env.lk with
  | false => simp [Dmsg.lock, hlk]
  | true =>
    simp only [Dmsg.lock, unlock, hlk, if_true] at h1 h2 ⊢
    split at h1
    · cases h1
    · cases h1
      simp only [List.mem_cons, true_or, if_true, List.erase_cons_head] at h2
      cases h2
      exact ⟨_, if_neg ‹_›⟩

/-- A message is bound to an open transaction if and only if that is on its circuit. -/
theorem Arrival.avoids_rxBind (hne : a ≠ .root i) (hsa : t0.heap.get a = some sa) :
    Avoids Fault.IsAssert (Dmsg.rxBind m x p (some a)) t ↔ sa.parent = some p := by
  have hroot := hA.get (.root i)
  have hpos := hA.pos
  rw [if_pos rfl] at hroot
  obtain ⟨t1, h1⟩ : ∃ t1, dmsgStateDrop (.root i) t = .ok ((), t1) := by
    simp only [dmsgStateDrop, bind_ok_iff, deref_ok, check_ok, update_ok, whenT_ok]
    exact ⟨_, _, t, ⟨hroot, rfl⟩, (), t, ⟨by dsimp only; omega, rfl⟩, (), _, ⟨⟨_, hroot⟩, rfl⟩,
      Or.inr ⟨by dsimp only; omega, rfl⟩⟩
  have hsa1 : t1.heap.get a = some sa := by
    rw [drop_get h1 hroot, if_neg hne, hA.get, if_neg hne, hsa]
  have hx1 : t1.msgs.get m = some x := drop_msgs h1 ▸ hA.msg
  obtain ⟨t2, h2, hx2, hsa2⟩ : ∃ t2, dmsgStateHold a t1 = .ok ((), t2) ∧
      t2.msgs.get m = some x ∧ t2.heap.get a = some { sa with refs := sa.refs + 1 } :=
    ⟨_, update_ok.mpr ⟨⟨sa, hsa1⟩, rfl⟩, hx1, Store.get_modify_some _ hsa1⟩
  obtain ⟨t3, h3, hsa3⟩ : ∃ t3, updMsg m (fun x => { x with state := a }) t2 = .ok ((), t3) ∧
      t3.heap.get a = some { sa with refs := sa.refs + 1 } :=
    ⟨_, updMsg_ok.mpr ⟨⟨x, hx2⟩, rfl⟩, hsa2⟩
  simp only [Dmsg.rxBind, hA.state]
  rw [avoids_bind_ok h1, avoids_bind_ok h2, avoids_bind_ok h3,
    avoids_bind_ok (deref_ok.mpr ⟨hsa3, rfl⟩), avoids_bind]
  simp [avoids_pure]

/-- On a circuit that is open, `dmsg_state_msgrx` asserts what it does under the mutex. -/
theorem Arrival.avoids_msgrx {t1 : Trans} (hl : Dmsg.lock env (.iocom i) t = .ok (u, t1))
    (hp : rxCircuit t0 i x.toTransHdr = some p) :
    Avoids Fault.IsAssert (dmsgStateMsgrx env m false) t ↔
      Avoids Fault.IsAssert (do
        let c ← Dmsg.rxBind m x p (rxState t0 i x.toTransHdr)
        rxMatched env i m x (some p) c) t1 := by
  have hroot := hA.get (.root i)
  rw [if_pos rfl, ← hA.state] at hroot
  have hA1 := hA.held (lock_ok hl)
  have hp1 : rxCircuit t1 i x.toTransHdr = some p := by
    rw [← hp]
    simp only [rxCircuit, rxFind, hA1.staterd, hA1.statewr]
  have hst1 : rxState t1 i x.toTransHdr = rxState t0 i x.toTransHdr := by
    simp only [rxState, rxFind, hA1.staterd, hA1.statewr]
  rw [← hA.iocom] at hl
  rw [dmsgStateMsgrx, avoids_bind_ok (getMsg_ok.mpr ⟨hA.msg, rfl⟩),
    avoids_bind_ok (deref_ok.mpr ⟨hroot, rfl⟩), avoids_bind_ok hl]
  simp only [avoids_bind (f := fun e => do unlock _ _; pure e), avoids_bind (f := fun _ => pure _),
    avoids_unlock, avoids_pure, implies_true, and_true]
  refine avoids_congr ?_
  simp only [rxLocked, hA.iocom, hp1, hst1, Bool.false_eq_true, if_false]

/-- A message that does not open a transaction, and whose msgid names none, fails. -/
theorem Arrival.stray {ps : DmsgState} (hne : p ≠ .root i) (hps : t0.heap.get p = some ps)
    (ho : x.cmd.opens = false)
    (hmsg : x.cmd.abort = true ∨ (x.cmd.create = false ∧ x.cmd.delete = false)) :
    ¬ Avoids Fault.IsAssert (rxMatched env i m x (some p) p) t := by
  have hroot := hA.get (.root i)
  have hp := hA.get p
  rw [if_pos rfl, ← hA.state] at hroot
  rw [if_neg hne, hps] at hp
  cases hc : x.cmd.create with
  | true =>
    have hr : x.cmd.reply = true := by simpa [Cmd.opens, hc] using ho
    rw [rxMatched, avoids_bind]
    simp [rxSwitch, hc, hr, rxReply, avoids_bind]
  | false =>
    have hd : x.cmd.delete = true → some p = some p ∧ x.cmd.abort = true := by
      intro hdel
      rcases hmsg with hab | ⟨-, hdel'⟩
      · exact ⟨rfl, hab⟩
      · rw [hdel] at hdel'
        cases hdel'
    obtain ⟨er, hsw⟩ := rxSwitch_old env i m hp hc hd
    rw [avoids_rxMatched hsw hA.msg hroot hp fun hc _ => by rw [hA.isRoot] at hc; cases hc]
    rintro ⟨-, hst⟩
    exact hne (hst ▸ hA.state)

/-- A one-way message for a transaction that is open on the circuit is taken. -/
theorem Arrival.oneway (hne : a ≠ .root i) (hsa : t0.heap.get a = some sa) (hioc : sa.iocom = i)
    (hc : x.cmd.create = false) (hd : x.cmd.delete = false) :
    Avoids Fault.IsAssert
        (do let c ← Dmsg.rxBind m x p (some a); rxMatched env i m x (some p) c) t ↔
      sa.parent = some p := by
  rw [avoids_bind, hA.avoids_rxBind hne hsa]
  constructor
  · exact fun h => h.1
  · intro hpar
    refine ⟨hpar, fun c t' h => ?_⟩
    obtain ⟨rfl, -, hm, -, -, hget⟩ := hA.rxBind h hne hsa
    have hc' := hget c
    rw [if_pos rfl] at hc'
    obtain ⟨er, hsw⟩ := rxSwitch_old env i m (q := some p) hc' hc
      fun hdel => by rw [hd] at hdel; cases hdel
    exact (avoids_rxMatched hsw hm hc' hc' fun _ hdel => by rw [hd] at hdel; cases hdel).mpr
      ⟨hioc, rfl⟩

end

/-- On the circuit `p`, an ABORT for a msgid that is not open and a one-way message fail no
    assertion if and only if the message opens a transaction or belongs to one on `p`. -/
theorem circuit_tolerates_iff (env : Env) (M : Machine) (hM : M.Reachable env) (i m : Nat)
    (hdr : TransHdr) (aux : List UInt8) (t : Trans) (p : Addr)
    (h : ioqAlloc env i hdr aux M.t = .ok (m, t)) (hcirc : hdr.circuit ≠ 0)
    (hp : rxCircuit M.t i hdr = some p)
    (hmsg : (hdr.cmd.abort = true ∧ rxState M.t i hdr = none) ∨
      (hdr.cmd.create = false ∧ hdr.cmd.delete = false)) :
    (∀ as, dmsgStateMsgrx env m false t ≠ .error (.assert as)) ↔
      (rxState M.t i hdr = none → hdr.cmd.opens = true) ∧
        ∀ a s, rxState M.t i hdr = some a → M.t.heap.get a = some s → s.parent = some p := by
  have hI := hM.inv
  have he := inHand_nonneg M.stack
  obtain ⟨x, s0, rfl, hA⟩ := hI.arrival he h
  obtain ⟨hI1, -⟩ := hI.ioqAlloc he h
  obtain ⟨ta, hl⟩ := hA.lock h
  have hAa := hA.held (lock_ok hl)
  have hIa := hI1.lock hl
  have hfind : rxFind M.t i x.cmd.revcirc x.circuit = some p := by
    rw [← hp, rxCircuit, if_neg hcirc]
  obtain ⟨⟨k, rfl⟩, ps, hps, -⟩ := hI.rxFind_some he hfind
  have hav : (∀ as, dmsgStateMsgrx env m false t ≠ .error (.assert as)) ↔
      Avoids Fault.IsAssert (dmsgStateMsgrx env m false) t :=
    ⟨fun h err heq has => h has.choose (has.choose_spec ▸ heq), fun h as heq => h _ heq ⟨as, rfl⟩⟩
  rw [hav, hA.avoids_msgrx hl hp]
  cases hfound : rxState M.t i x.toTransHdr with
  | none =>
    rw [avoids_bind_ok (show rxBind m x (.dyn k) none ta = .ok (.dyn k, ta) from rfl)]
    simp only [true_implies, reduceCtorEq, false_implies, implies_true, and_true]
    cases ho : x.cmd.opens with
    | true =>
      simp only [iff_true]
      exact hIa.avoids_opens he hAa.msg ho
    | false =>
      simp only [Bool.false_eq_true, iff_false]
      exact hAa.stray (by simp) hps ho (hmsg.imp And.left id)
  | some a =>
    obtain ⟨⟨n, rfl⟩, sa, hsa, -, hioc, -⟩ := hI.rxFind_some he hfound
    obtain ⟨hc, hd⟩ : x.cmd.create = false ∧ x.cmd.delete = false :=
      hmsg.resolve_left fun h => by rw [hfound] at h; cases h.2
    rw [hAa.oneway (by simp) hsa hioc hc hd]
    constructor
    · intro hpar
      refine ⟨fun h => (by cases h), fun a s ha hs => ?_⟩
      cases ha
      rw [hsa] at hs
      cases hs
      exact hpar
    · exact fun h => h.2 _ sa rfl hsa

/-- The header of a message of one unit on circuit 1, which was opened here. -/
def onCircuit (cmd : Cmd) (msgid : Nat) : TransHdr :=
  { cmd := { cmd with base := 1, revcirc := true }, msgid := msgid, circuit := 1 }

theorem circuit_tolerates_create : ∃ (M : Machine) (m : Nat) (t : Trans), M.Reachable .bump ∧
    ioqAlloc .bump 0 (onCircuit { create := true, abort := true } 8) [] M.t = .ok (m, t) ∧
    ∀ as, dmsgStateMsgrx .bump m false t ≠ .error (.assert as) :=
  ⟨_, _, _, ⟨opensHere, rfl⟩, rfl, (circuit_tolerates_iff .bump _ ⟨opensHere, rfl⟩ 0 _
    (onCircuit { create := true, abort := true } 8) [] _ (.dyn 1) rfl (by decide) rfl
    (Or.inl ⟨rfl, rfl⟩)).mpr ⟨fun _ => rfl, fun _ _ h => by cases h⟩⟩

/-- The ABORT of a transaction on circuit 1 that is closed already, and a one-way message on
    circuit 1: both fail the assertion that `msg->state` is `state`. -/
theorem circuit_asserts : ∃ (M : Machine) (m : Nat) (t : Trans) (m' : Nat) (t' : Trans),
    M.Reachable .bump ∧
    ioqAlloc .bump 0 (onCircuit { delete := true, abort := true } 8) [] M.t = .ok (m, t) ∧
    dmsgStateMsgrx .bump m false t = .error (.assert .rxState) ∧
    ioqAlloc .bump 0 (onCircuit {} 0) [] M.t = .ok (m', t') ∧
    dmsgStateMsgrx .bump m' false t' = .error (.assert .rxState) :=
  ⟨_, _, _, _, _, ⟨opensHere, rfl⟩, rfl, rfl, rfl, rfl⟩

end Lh1.Dmsg
