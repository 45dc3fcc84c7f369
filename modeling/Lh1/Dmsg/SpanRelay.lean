/-
  The header of a relayed SPAN (lib/libdmsg/msg_lnk.c, `dmsg_generate_relay`).

  `dmsg_msg_alloc` fills in the header of the new transaction. Then the whole LNK_SPAN structure
  of the incoming link, its header included, is copied over the message. `dmsg_msg_write` puts
  the msgid right again, and nothing else.

  * `msgAlloc_spec`: the message `dmsg_msg_alloc` makes, and the transaction it is bound to.
  * `msgWrite_open`: what `dmsg_msg_write` makes of a message on a transaction that is open.
  * `relayed_span_header_iff`: the relayed SPAN carries the header of its own transaction exactly
    if the incoming one was sent with that header, up to its msgid.
-/
import Lh1.Dmsg.Machine
import Lh1.Lib.Fallible

namespace Lh1.Dmsg

open Lh1.Lib

variable {env : Env} {t t' : Trans} {a : Addr} {i m : Nat} {cmd : Cmd} {func : RxFunc}
  {data : Bool} {aux : List UInt8} {fs : List Frame}

/-! ## Allocation -/

/-- The message `x` at `m` and the transaction `s` it is bound to, under the circuit `ps`, as
    `dmsg_msg_alloc` leaves them. -/
structure NewMsg (aux : List UInt8) (cmd : Cmd) (t : Trans) (m : Nat) (x : TransMsg)
    (s ps : DmsgState) : Prop where
  msg : t.msgs.get m = some x
  state : t.heap.get x.state = some s
  circuit : ∃ p, s.parent = some p ∧ t.heap.get p = some ps
  fields : x = {
    state := x.state, msgid := s.msgid, circuit := ps.msgid, aux := aux
    ext := List.replicate (64 * (cmd.base % 256) - 64) 0
    cmd := { cmd with
      revtrans := cmd.revtrans || s.opposite, revcirc := cmd.revcirc || ps.opposite } }

/-- The transaction that a CREATE has opened under `a`. -/
structure OpenedUnder (a : Addr) (t : Trans) (c : Addr) (s : DmsgState) : Prop where
  fresh : t.heap.get c = none
  parent : s.parent = some a
  opposite : s.opposite = false
  root : s.root = false
  tx : s.txcmd.delete = false

theorem openLocal_spec {p c : Addr} {ps : DmsgState} (hps : t.heap.get p = some ps)
    (h : openLocal env p ps cmd func data t = .ok (c, t')) :
    ∃ s ps', t'.heap.get c = some s ∧ OpenedUnder p t c s ∧ t'.heap.get p = some ps' ∧
      ps'.msgid = ps.msgid ∧ ps'.opposite = ps.opposite := by
  simp only [openLocal, bind_ok_iff, newState_ok, modifyT_ok, subqInsert, update_ok,
    pure_ok_iff] at h
  obtain ⟨n, t, ⟨-, hn, rfl⟩, _, _, rfl, _, _, ⟨-, rfl⟩, rfl, rfl⟩ := h
  have hne : p ≠ .dyn n := by
    rintro rfl
    rw [hn] at hps
    cases hps
  have hp : (t.heap.insert (.dyn n) (localState p ps n cmd func data)).get p = some ps := by
    rw [Store.get_insert _ _ _ _ hn, if_neg hne]
    exact hps
  have hc : (t.heap.insert (.dyn n) (localState p ps n cmd func data)).get (.dyn n) =
      some (localState p ps n cmd func data) := by
    rw [Store.get_insert _ _ _ _ hn, if_pos rfl]
  exact ⟨_, _, (Store.get_modify_of_ne _ _ hne.symm).trans hc, ⟨hn, rfl, rfl, rfl, rfl⟩,
    Store.get_modify_some _ hp, rfl, rfl⟩

theorem msgAllocLocked_spec (h : dmsgMsgAllocLocked env a aux cmd func data t = .ok (m, t')) :
    ∃ x s ps, NewMsg aux cmd t' m x s ps ∧
      (cmd.opens = true → OpenedUnder a t x.state s ∧
        ∀ as, t.heap.get a = some as → ps.msgid = as.msgid ∧ ps.opposite = as.opposite) ∧
      (cmd.opens = false → x.state = a) := by
  simp only [dmsgMsgAllocLocked, allocState, bind_ok_iff, deref_ok, check_ok] at h
  obtain ⟨⟨st, q⟩, t1, ⟨as, t, ⟨has, rfl⟩, h1⟩, _, t1, ⟨-, rfl⟩, s, t1, ⟨hs, rfl⟩, ps, t1,
    ⟨hps, rfl⟩, h⟩ := h
  obtain ⟨-, hnone, rfl⟩ := newMsg_ok.mp h
  have hget := Store.get_insert t1.msgs m m
    { state := st, msgid := s.msgid, circuit := ps.msgid, aux := aux
      ext := List.replicate (64 * (cmd.base % 256) - 64) 0
      cmd := { cmd with
        revtrans := cmd.revtrans || s.opposite, revcirc := cmd.revcirc || ps.opposite } } hnone
  rw [if_pos rfl] at hget
  cases ho : cmd.opens with
  | true =>
    rw [if_pos ho] at h1
    simp only [bind_ok_iff, pure_ok_iff] at h1
    obtain ⟨c, _, h1, heq, rfl⟩ := h1
    cases heq
    obtain ⟨s', ps', hs', hopen, hps', hid, hopp⟩ := openLocal_spec has h1
    rw [hs'] at hs
    cases hs
    rw [hps'] at hps
    cases hps
    refine ⟨_, s, ps, ⟨hget, hs', ⟨_, hopen.parent, hps'⟩, rfl⟩, fun _ => ⟨hopen, ?_⟩,
      fun hc => by cases hc⟩
    intro as' has'
    rw [has] at has'
    cases has'
    exact ⟨hid, hopp⟩
  | false =>
    rw [if_neg (by rw [ho]; exact Bool.false_ne_true)] at h1
    simp only [dmsgStateHold, bind_ok_iff, update_ok, nonNull_ok, pure_ok_iff] at h1
    obtain ⟨_, _, ⟨-, rfl⟩, p, _, ⟨hp, rfl⟩, heq, rfl⟩ := h1
    cases heq
    rw [Store.get_modify_some _ has] at hs
    cases hs
    exact ⟨_, _, ps, ⟨hget, Store.get_modify_some _ has, ⟨_, hp, hps⟩, rfl⟩,
      fun hc => (by cases hc), fun _ => rfl⟩

/-- Locking and unlocking around it change nothing that is said here. -/
theorem msgAlloc_spec (h : dmsgMsgAlloc env a aux cmd func data t = .ok (m, t')) :
    ∃ x s ps, NewMsg aux cmd t' m x s ps ∧
      (cmd.opens = true → OpenedUnder a t x.state s ∧
        ∀ as, t.heap.get a = some as → ps.msgid = as.msgid ∧ ps.opposite = as.opposite) ∧
      (cmd.opens = false → x.state = a) := by
  simp only [dmsgMsgAlloc, bind_ok_iff, deref_ok, pure_ok_iff] at h
  obtain ⟨s, t, ⟨-, rfl⟩, _, t1, h1, m, t2, h2, _, t', h3, rfl, rfl⟩ := h
  obtain ⟨x, s, ps, hnew, hopen, hbound⟩ := msgAllocLocked_spec h2
  have hh1 : t1.heap = t.heap := by rw [lock_ok h1]
  have hh3 : t'.heap = t2.heap := by rw [unlock_ok h3]
  have hm3 : t'.msgs = t2.msgs := by rw [unlock_ok h3]
  refine ⟨x, s, ps, ⟨hm3 ▸ hnew.msg, hh3 ▸ hnew.state, hh3 ▸ hnew.circuit, hnew.fields⟩,
    fun ho => ?_, hbound⟩
  obtain ⟨hop, hcirc⟩ := hopen ho
  exact ⟨⟨hh1 ▸ hop.fresh, hop.parent, hop.opposite, hop.root, hop.tx⟩, hh1 ▸ hcirc⟩

/-! ## Sending -/

/-- What does not change while a transaction lives, stays on its circuit and is not closed for
    sending. -/
structure SameTransaction (s s' : DmsgState) : Prop where
  msgid : s'.msgid = s.msgid
  opposite : s'.opposite = s.opposite
  parent : s'.parent = s.parent
  iocom : s'.iocom = s.iocom
  root : s'.root = s.root
  tx : s.txcmd.delete = false → s'.txcmd.delete = false

theorem SameTransaction.refl (s : DmsgState) : SameTransaction s s :=
  ⟨rfl, rfl, rfl, rfl, rfl, id⟩

theorem SameTransaction.trans {s1 s2 s3 : DmsgState} (h1 : SameTransaction s1 s2)
    (h2 : SameTransaction s2 s3) : SameTransaction s1 s3 :=
  ⟨h2.msgid.trans h1.msgid, h2.opposite.trans h1.opposite, h2.parent.trans h1.parent,
    h2.iocom.trans h1.iocom, h2.root.trans h1.root, fun h => h2.tx (h1.tx h)⟩

/-- No transaction is lost and none leaves its circuit. -/
def Persists (t t' : Trans) : Prop :=
  ∀ b s, t.heap.get b = some s → ∃ s', t'.heap.get b = some s' ∧ SameTransaction s s'

theorem Persists.of_heap (h : t'.heap = t.heap) : Persists t t' :=
  fun _ s hb => ⟨s, h ▸ hb, .refl s⟩

theorem Persists.trans {t1 t2 t3 : Trans} (h1 : Persists t1 t2) (h2 : Persists t2 t3) :
    Persists t1 t3 := by
  intro b s hb
  obtain ⟨s2, hb2, hs2⟩ := h1 b s hb
  obtain ⟨s3, hb3, hs3⟩ := h2 b s2 hb2
  exact ⟨s3, hb3, hs2.trans hs3⟩

variable {u : Unit}

theorem Persists.update {f : DmsgState → DmsgState} (h : update a f t = .ok (u, t'))
    (hf : ∀ s, SameTransaction s (f s)) : Persists t t' := by
  obtain ⟨-, rfl⟩ := update_ok.mp h
  intro b s hb
  by_cases hba : b = a
  · subst hba
    exact ⟨f s, Store.get_modify_some f hb, hf s⟩
  · exact ⟨s, (Store.get_modify_of_ne _ _ hba).trans hb, .refl s⟩

theorem update_msgs {f : DmsgState → DmsgState} (h : update a f t = .ok (u, t')) :
    t'.msgs = t.msgs := by
  rw [(update_ok.mp h).2]

theorem Persists.hold (h : dmsgStateHold a t = .ok (u, t')) : Persists t t' :=
  .update h fun _ => ⟨rfl, rfl, rfl, rfl, rfl, id⟩

theorem holdX_spec (h : holdX a t = .ok (u, t')) : Persists t t' ∧ t'.msgs = t.msgs := by
  simp only [holdX, bind_ok_iff, modifyT_ok] at h
  obtain ⟨_, t1, h1, rfl⟩ := h
  have hm := update_msgs h1
  exact ⟨(Persists.hold h1).trans (.of_heap rfl), hm⟩

/-- `dmsg_msg_write` before it looks at the state of the transaction. -/
theorem txPrepare_spec {x : TransMsg} {s : DmsgState} (hs : t.heap.get x.state = some s)
    (h : txPrepare m x t = .ok (u, t')) :
    t'.msgs = t.msgs.modify m (fun x => { x with msgid := s.msgid }) ∧ Persists t t' ∧
      ∃ s', t'.heap.get x.state = some s' ∧ SameTransaction s s' := by
  simp only [txPrepare, bind_ok_iff, deref_ok, updMsg_ok] at h
  obtain ⟨s', t, ⟨hs', rfl⟩, _, t1, ⟨-, rfl⟩, h⟩ := h
  rw [hs] at hs'
  cases hs'
  rcases whenT_ok.mp h with ⟨-, h⟩ | ⟨-, rfl⟩
  · have hsame : ∀ s : DmsgState, SameTransaction s
        (if x.cmd.reply then { s with txcmd := x.cmd.noDelete }
          else { s with txcmd := x.cmd.noDelete, icmd := x.cmd.base, isNew := false }) := by
      intro s
      split <;> exact ⟨rfl, rfl, rfl, rfl, rfl, fun _ => rfl⟩
    have hper := Persists.update h hsame
    obtain ⟨-, rfl⟩ := update_ok.mp h
    exact ⟨rfl, hper, _, Store.get_modify_some _ hs, hsame s⟩
  · exact ⟨rfl, .of_heap rfl, s, hs, .refl s⟩

/-- A message on a transaction that is open for sending gets the msgid of its transaction. All
    else of it stays as it is until it is queued. -/
theorem msgWrite_open {x : TransMsg} {s : DmsgState} (hx : t.msgs.get m = some x)
    (hs : t.heap.get x.state = some s) (hroot : s.root = false) (htx : s.txcmd.delete = false)
    (h : dmsgMsgWrite env m t = .ok (fs, t')) :
    .cleanuptx s.iocom m ∈ fs ∧ t'.msgs.get m = some { x with msgid := s.msgid } ∧
      Persists t t' := by
  simp only [dmsgMsgWrite, bind_ok_iff, getMsg_ok, deref_ok] at h
  obtain ⟨x', t, ⟨hx', rfl⟩, s', t, ⟨hs', rfl⟩, _, t1, h1, _, t2, h2, s2, t2, ⟨hs2, rfl⟩, h⟩ := h
  rw [hx] at hx'
  cases hx'
  rw [hs] at hs'
  cases hs'
  have hh1 : t1.heap = t.heap := by rw [lock_ok h1]
  have hm1 : t1.msgs = t.msgs := by rw [lock_ok h1]
  rcases whenT_ok.mp h2 with ⟨-, h2⟩ | ⟨hno, -⟩
  · obtain ⟨hmsgs, hper, s', hs', hsame⟩ := txPrepare_spec (hh1 ▸ hs) h2
    rw [hs'] at hs2
    cases hs2
    have hper' : Persists t t2 := (Persists.of_heap hh1).trans hper
    have hget : t2.msgs.get m = some { x with msgid := s.msgid } := by
      rw [hmsgs, hm1]
      exact Store.get_modify_some _ hx
    rw [hsame.tx htx, if_neg Bool.false_ne_true] at h
    split at h
    · simp only [bind_ok_iff, pure_ok_iff] at h
      obtain ⟨_, t3, h3, rfl, rfl⟩ := h
      have hper3 := Persists.hold h3
      obtain ⟨-, rfl⟩ := update_ok.mp h3
      exact ⟨by rw [hsame.iocom]; exact List.mem_cons_self, hget, hper'.trans hper3⟩
    · obtain ⟨rfl, rfl⟩ := pure_ok_iff.mp h
      exact ⟨by rw [hsame.iocom]; exact List.mem_cons_self, hget, hper'⟩
  · exact absurd hroot hno

/-! ## The relayed SPAN -/

/-- The LNK_SPAN CREATE that belongs to the transaction `s` on the circuit `p`: nothing in it
    but what the two and the payload `ext` make. -/
def spanCreate (s p : DmsgState) (ext : List UInt8) : TransHdr where
  cmd := { create := true, base := dmsgLnkSpan, revtrans := s.opposite, revcirc := p.opposite }
  msgid := s.msgid
  circuit := p.msgid
  ext := ext

/-- The message `x` carries the header of its own transaction, which is a new one on the
    connection `i`, and the payload `ext`. -/
def OwnHeader (t : Trans) (i : Nat) (ext : List UInt8) (x : TransMsg) : Prop :=
  ∃ s p, t.heap.get x.state = some s ∧ s.parent = some (.root i) ∧
    t.heap.get (.root i) = some p ∧ x.toTransHdr = spanCreate s p ext

/-- The incoming SPAN was sent as a plain CREATE on a circuit that looks like `p`. -/
def PlainSpan (p : DmsgState) (span : TransHdr) : Prop :=
  { span with msgid := 0 } =
    ({ cmd := { create := true, base := dmsgLnkSpan, revcirc := p.opposite }
       msgid := 0, circuit := p.msgid, ext := span.ext } : TransHdr)

theorem generateRelay_spec {src : Addr} {span : TransHdr} {p : DmsgState}
    (hp : t.heap.get (.root i) = some p)
    (h : dmsgGenerateRelay env i src span t = .ok (fs, t')) :
    ∃ k x s p', .cleanuptx s.iocom k ∈ fs ∧ t'.msgs.get k = some x ∧
      t'.heap.get x.state = some s ∧ s.parent = some (.root i) ∧ s.opposite = false ∧
      t'.heap.get (.root i) = some p' ∧ p'.msgid = p.msgid ∧ p'.opposite = p.opposite ∧
      x.toTransHdr = { span with msgid := s.msgid, ext := advanceSpan env.rnss span.ext } := by
  simp only [dmsgGenerateRelay, bind_ok_iff, getMsg_ok] at h
  obtain ⟨_, t1, h1, k, t2, h2, x, t2, ⟨hx, rfl⟩, _, t3, h3, _, t4, h4, _, t5, h5, _, t6, h6, h7⟩ := h
  obtain ⟨p1, hp1, hsame1⟩ := (holdX_spec h1).1 _ _ hp
  obtain ⟨x', s, ps, hnew, hopen, -⟩ := msgAlloc_spec h2
  rw [hnew.msg] at hx
  cases hx
  obtain ⟨hunder, hcirc⟩ := hopen rfl
  obtain ⟨hid, hopp⟩ := hcirc p1 hp1
  obtain ⟨q, hq, hps⟩ := hnew.circuit
  rw [hunder.parent] at hq
  cases hq
  obtain ⟨hper3, hm3⟩ := holdX_spec h3
  have hper5 := Persists.update h5 fun _ => ⟨rfl, rfl, rfl, rfl, rfl, id⟩
  have hh4 : t4.heap = t3.heap := by rw [(updMsg_ok.mp h4).2]
  have hper := (hper3.trans (Persists.of_heap hh4)).trans (hper5.trans (.hold h6))
  obtain ⟨s6, hs6, hsame6⟩ := hper _ _ hnew.state
  have hcopy : t6.msgs.get k = some { x with toTransHdr :=
      { span with ext := advanceSpan env.rnss span.ext } } := by
    rw [update_msgs h6, update_msgs h5, (updMsg_ok.mp h4).2]
    exact Store.get_modify_some _ (hm3.symm ▸ hnew.msg)
  obtain ⟨hfs, hget, hper7⟩ := msgWrite_open hcopy hs6
    (hsame6.root.trans hunder.root) (hsame6.tx hunder.tx) h7
  obtain ⟨s7, hs7, hsame7⟩ := (hper.trans hper7) _ _ hnew.state
  obtain ⟨p7, hp7, hsameP⟩ := (hper.trans hper7) _ _ hps
  refine ⟨k, _, s7, p7, ?_, hget, hs7, hsame7.parent.trans hunder.parent,
    hsame7.opposite.trans hunder.opposite, hp7, (hsameP.msgid.trans hid).trans hsame1.msgid,
    (hsameP.opposite.trans hopp).trans hsame1.opposite, ?_⟩
  · rwa [hsame7.iocom, ← hsame6.iocom]
  · rw [hsame7.msgid, ← hsame6.msgid]

/-- `dmsg_generate_relay` writes a message, and that message carries the header of its own
    transaction exactly if the incoming SPAN was sent with such a header. -/
theorem relayed_span_header_iff {src : Addr} {span : TransHdr} {p : DmsgState}
    (hp : t.heap.get (.root i) = some p)
    (h : dmsgGenerateRelay env i src span t = .ok (fs, t')) :
    ∃ j k x, .cleanuptx j k ∈ fs ∧ t'.msgs.get k = some x ∧
      (OwnHeader t' i (advanceSpan env.rnss span.ext) x ↔ PlainSpan p span) := by
  obtain ⟨k, x, s, p', hfs, hget, hs, hpar, hopp, hp', hid, hpopp, hx⟩ := generateRelay_spec hp h
  refine ⟨s.iocom, k, x, hfs, hget, ?_⟩
  have hiff : x.toTransHdr = spanCreate s p' (advanceSpan env.rnss span.ext) ↔ PlainSpan p span := by
    rw [hx, spanCreate, PlainSpan, hopp, hid, hpopp]
    cases span
    simp
  rw [← hiff]
  constructor
  · rintro ⟨s', p'', hs', -, hp'', heq⟩
    rw [hs] at hs'
    cases hs'
    rw [hp'] at hp''
    cases hp''
    exact heq
  · intro heq
    exact ⟨s, p', hs, hpar, hp', heq⟩

/-- Two connections; on the first the peer has opened a SPAN. -/
def spanTrans : Trans where
  heap := ((Store.empty.insert (.root 0) (state0 0)).insert (.root 1) (state0 1)).insert (.dyn 1)
    { iocom := 0, parent := some (.root 0), msgid := 7, opposite := true, refs := 1 }
  msgs := .empty

/-- A SPAN as `dmsg_msg_alloc` and `dmsg_msg_write` send it. -/
def plainSpan : TransHdr where
  cmd := { create := true, base := dmsgLnkSpan }
  msgid := 7
  circuit := 0
  ext := List.replicate 384 0

theorem relayed_span_header_plain :
    ∃ fs t' j k x, dmsgGenerateRelay Env.bump 1 (.dyn 1) plainSpan spanTrans = .ok (fs, t') ∧
      Frame.cleanuptx j k ∈ fs ∧ t'.msgs.get k = some x ∧
      OwnHeader t' 1 (advanceSpan Env.bump.rnss plainSpan.ext) x := by
  obtain ⟨⟨fs, t'⟩, h⟩ := exists_ok
    (x := dmsgGenerateRelay Env.bump 1 (.dyn 1) plainSpan spanTrans) (by decide +kernel)
  obtain ⟨j, k, x, hfs, hget, hiff⟩ :=
    relayed_span_header_iff (show spanTrans.heap.get (.root 1) = some (state0 1) from rfl) h
  exact ⟨fs, t', j, k, x, h, hfs, hget, hiff.mpr rfl⟩

/-- A SPAN whose sender has set an error and a REV bit. -/
def forgedSpan : TransHdr :=
  { plainSpan with cmd := { plainSpan.cmd with revtrans := true }, error := 1 }

/-- Both are passed on in the name of the new transaction. -/
theorem relayed_span_header_forged :
    ∃ fs t' j k x, dmsgGenerateRelay Env.bump 1 (.dyn 1) forgedSpan spanTrans = .ok (fs, t') ∧
      Frame.cleanuptx j k ∈ fs ∧ t'.msgs.get k = some x ∧
      x.cmd.revtrans = true ∧ x.error = 1 ∧
      ¬ OwnHeader t' 1 (advanceSpan Env.bump.rnss forgedSpan.ext) x := by
  obtain ⟨⟨fs, t'⟩, h⟩ := exists_ok
    (x := dmsgGenerateRelay Env.bump 1 (.dyn 1) forgedSpan spanTrans) (by decide +kernel)
  have hroot : spanTrans.heap.get (.root 1) = some (state0 1) := rfl
  obtain ⟨k, x, s, p, hfs, hget, hs, -, hopp, -, -, -, hx⟩ := generateRelay_spec hroot h
  have hcmd : x.cmd.revtrans = true := by rw [hx]; rfl
  refine ⟨fs, t', s.iocom, k, x, h, hfs, hget, hcmd, by rw [hx]; rfl, ?_⟩
  rintro ⟨s', p', hs', -, -, heq⟩
  rw [hs] at hs'
  cases hs'
  rw [heq, spanCreate, hopp] at hcmd
  exact Bool.false_ne_true hcmd

end Lh1.Dmsg
