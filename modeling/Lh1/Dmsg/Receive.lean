/-
  The receive loop of a dmsg link with its messages (dmsg_ioq_read of lib/libdmsg/msg.c), against an
  arbitrary peer and an arbitrary dmsg_state_msgrx.

  A message is an allocation with a number; `cur` is the pointer in `ioq->msg`. One step is a trip
  from `again:` to the return or to a `goto again`. What dmsg_state_msgrx returns for a message that
  is complete comes with the step. `ioq->msgq` of the receiver stays empty, since nothing in this tree
  inserts into it. The link is unencrypted, and locks do nothing.

  * `recvStep_read_eq_pass`: when dmsg_state_msgrx succeeds, a step is a pass of the framing model.
  * `receive_loop_survives`: in every run in which no extended header fails its CRC and
    dmsg_state_msgrx returns 0 or EALREADY, no assertion fails, every message is freed or returned
    once, and an error hands the open transactions to dmsg_simulate_failure.
  * `receive_loop_asserts`: a bad header CRC and a rejected message each fail an assertion.
-/
import Lh1.Lib.Fallible
import Lh1.Dmsg.AuxBound

namespace Lh1.Dmsg

open Lh1.Lib

/-! ## The loop -/

/-- What happens to messages and transactions. -/
inductive RxEvent where
  | alloc (id : Nat)
  | free (id : Nat)
  | deliver (id : Nat)
  | simulate (e : IoqError)
  deriving DecidableEq, Repr

/-- The receiver, all bytes the peer has sent (`stream`), where in it the frame being received
    starts (`off`), and what has happened to the messages. -/
structure Receiver where
  ioq : DmsgIoq
  wire : List UInt8
  stream : List UInt8
  off : Nat
  cur : Option Nat
  next : Nat
  log : List RxEvent

def recvInit : Receiver where
  ioq := dmsgIoqInit
  wire := []
  stream := []
  off := 0
  cur := none
  next := 0
  log := []

/-- What is left of the stream at the current frame. -/
def Receiver.front (r : Receiver) : List UInt8 := r.stream.drop r.off

inductive RecvAction where
  | arrive (bs : List UInt8)
  | read (script : List ReadChoice) (error : Option IoqError)

/-- The error exit, with `msg` as the local variable. -/
def Receiver.skip (r : Receiver) (msg : Option Nat) (e : IoqError) : Except IoqAssert Receiver :=
  if r.cur ≠ msg then .error .errorMsg
  else .ok { r with
    ioq := { r.ioq with error := some e, msg := none, state := .error }
    cur := none
    log := r.log ++ msg.toList.map .free ++ [.simulate e] }

/-- The receiver behind the switch, in which HEADER1 may have allocated the message. -/
def Receiver.switched (r : Receiver) (io : RxIo) : Receiver :=
  if r.cur = none ∧ io.ioq.msg.isSome then
    { r with ioq := io.ioq, wire := io.wire, cur := some r.next, next := r.next + 1
             log := r.log ++ [.alloc r.next] }
  else { r with ioq := io.ioq, wire := io.wire }

/-- The completed message goes to dmsg_state_msgrx, which returns `error`. The frame ends where the
    bytes begin that are still in the FIFO and the socket. -/
def Receiver.complete (r : Receiver) (id : Nat) (error : Option IoqError) :
    Except IoqAssert Receiver :=
  let ioq := ioqComplete { r.ioq with seq := r.ioq.seq + 1 }
  let r := { r with
    ioq := ioq
    off := r.stream.length - (r.wire.length + (ioq.fifoEnd - ioq.fifoBeg))
    cur := none }
  match error with
  | none => .ok { r with log := r.log ++ [.deliver id] }
  | some .ealready => .ok { r with log := r.log ++ [.free id] }
  | some e => Receiver.skip { r with ioq := { r.ioq with error := some e } } (some id) e

/-- From the sequence check on; `have_` says whether the local `msg` is `ioq->msg` or NULL. -/
def Receiver.finish (r : Receiver) (have_ : Bool) (error : Option IoqError) :
    Except IoqAssert Receiver :=
  match r.ioq.error with
  | some e => r.skip (if have_ then r.cur else none) e
  | none =>
    if have_ then
      match r.ioq.msg, r.cur with
      | some msg, some id =>
        if (msg.head.salt &&& 255).toNat ≠ r.ioq.seq % 256 then r.skip (some id) .msgseq
        else r.complete id error
      | _, _ => .error .msgNonNull
    else .ok r

def recvStep (icrc : Crc) (r : Receiver) : RecvAction → Except IoqAssert Receiver
  | .arrive bs => .ok { r with wire := r.wire ++ bs, stream := r.stream ++ bs }
  | .read script error =>
    match r.ioq.error with
    | some e => r.skip none e
    | none =>
      match ioqSwitch icrc plainDecrypt ⟨r.ioq, r.wire, script⟩ with
      | .error a => .error a
      | .ok (io, have_) => (r.switched io).finish have_ error

/-! ## What holds in between -/

/-- How often a message was given away. -/
def Receiver.uses (r : Receiver) (id : Nat) : Nat :=
  r.log.count (.free id) + r.log.count (.deliver id)

/-- Every message that was allocated is in `ioq->msg`, or it was freed or returned once. -/
structure Receiver.Ledger (r : Receiver) : Prop where
  cur : ∀ id, r.cur = some id → id < r.next ∧ r.uses id = 0
  gone : ∀ id < r.next, r.cur ≠ some id → r.uses id = 1
  fresh : ∀ id, r.next ≤ id → r.uses id = 0

/-- After an error nothing is left of the message, and the transactions have been told. -/
def Receiver.Errored (r : Receiver) : Prop :=
  ∀ e, r.ioq.error = some e → r.ioq.msg = none ∧ r.ioq.state = .error ∧ .simulate e ∈ r.log

structure RecvInv (icrc : Crc) (r : Receiver) : Prop where
  rest : r.ioq.error = none → Rest icrc r.front ⟨r.ioq, r.wire, []⟩
  errored : r.Errored
  off : r.off ≤ r.stream.length
  cur : r.cur.isSome = r.ioq.msg.isSome
  ledger : r.Ledger

/-- The extended header of the current frame, once it is complete, has the right CRC, and
    dmsg_state_msgrx does not reject the message. -/
def Sane (icrc : Crc) (r : Receiver) : RecvAction → Prop
  | .arrive _ => True
  | .read _ error => r.ioq.error = none →
      frame icrc r.front ≠ .crash ∧
        ∀ m n, frame icrc r.front = .msg m n → error = none ∨ error = some .ealready

def FrameResult.isMsg : FrameResult → Bool
  | .msg _ _ => true
  | _ => false

instance (icrc : Crc) (r : Receiver) : ∀ a, Decidable (Sane icrc r a)
  | .arrive _ => .isTrue trivial
  | .read _ error =>
    decidable_of_iff (r.ioq.error = none → frame icrc r.front ≠ .crash ∧
        ((frame icrc r.front).isMsg → error = none ∨ error = some .ealready)) <| by
      refine imp_congr_right fun _ => and_congr_right fun _ => ?_
      cases frame icrc r.front <;> simp [FrameResult.isMsg]

/-- How a pass over the frame `T` with script `S` ends that leads from `r` to `r'`. -/
structure Ends (icrc : Crc) (T : List UInt8) (S : List ReadChoice)
    (r r' : Receiver) : Prop where
  /-- A pass that ends in an error returns no message. -/
  refused : r'.ioq.error ≠ none → ∀ id, .deliver id ∈ r'.log → .deliver id ∈ r.log
  /-- A malformed frame ends in its error, unless the pass could not read all of it yet or the
      socket failed. -/
  malformed : ∀ e, frame icrc T = .error e →
    r'.ioq.error = some e ∨ (r'.ioq.error = none ∧ r'.wire ≠ []) ∨
      ∃ e', r'.ioq.error = some e' ∧ SockCause S e'

def Answers (icrc : Crc) (r : Receiver) : RecvAction → Prop
  | .arrive _ => True
  | .read script error => r.ioq.error = none →
      ∃ r', recvStep icrc r (.read script error) = .ok r' ∧ Ends icrc r.front script r r'

section

variable {icrc : Crc} {r r' : Receiver} {id : Nat} {e : IoqError}

/-! ## The ledger -/

theorem recvInit_inv (icrc : Crc) : RecvInv icrc recvInit where
  rest _ := (linkInit_inv icrc (fun _ => 0)).rest
  errored := nofun
  off := Nat.le_refl _
  cur := rfl
  ledger := ⟨nofun, fun _ h => absurd h (Nat.not_lt_zero _), fun _ _ => rfl⟩

/-- An event in which no message is given away. -/
theorem Receiver.Ledger.congr (h : r.Ledger) (hcur : r'.cur = r.cur) (hnext : r'.next = r.next)
    (huses : ∀ id, r'.uses id = r.uses id) : r'.Ledger := by
  refine ⟨fun id hid => ?_, fun id hid hne => ?_, fun id hid => ?_⟩
  · rw [hcur] at hid
    rw [hnext, huses]
    exact h.cur id hid
  · rw [huses]
    exact h.gone id (hnext ▸ hid) (hcur ▸ hne)
  · rw [huses]
    exact h.fresh id (hnext ▸ hid)

theorem Receiver.Ledger.alloc (h : r.Ledger) (hcur : r.cur = none) (hcur' : r'.cur = some r.next)
    (hnext : r'.next = r.next + 1) (huses : ∀ id, r'.uses id = r.uses id) : r'.Ledger := by
  refine ⟨fun id hid => ?_, fun id hid hne => ?_, fun id hid => ?_⟩
  · rw [hcur'] at hid
    cases hid
    rw [hnext, huses]
    exact ⟨Nat.lt_succ_self _, h.fresh _ (Nat.le_refl _)⟩
  · rw [hcur'] at hne
    have hlt : id < r.next := by
      have : id ≠ r.next := fun heq => hne (by rw [heq])
      omega
    rw [huses]
    exact h.gone id hlt (by simp [hcur])
  · rw [huses]
    exact h.fresh id (by omega)

/-- The message in `ioq->msg` is given away. -/
theorem Receiver.Ledger.give (h : r.Ledger) (hcur : r.cur = some id) (hcur' : r'.cur = none)
    (hnext : r'.next = r.next) (huse : r'.uses id = r.uses id + 1)
    (huses : ∀ id' ≠ id, r'.uses id' = r.uses id') : r'.Ledger := by
  obtain ⟨hlt, hzero⟩ := h.cur id hcur
  refine ⟨fun id' hid => ?_, fun id' hid _ => ?_, fun id' hid => ?_⟩
  · rw [hcur'] at hid
    cases hid
  · by_cases heq : id' = id
    · rw [heq, huse, hzero]
    · rw [huses id' heq]
      exact h.gone id' (hnext ▸ hid) (by rw [hcur]; exact fun hs => heq (Option.some.inj hs).symm)
  · have hne : id' ≠ id := by omega
    rw [huses id' hne]
    exact h.fresh id' (hnext ▸ hid)

/-! ## The switch keeps the message -/

theorem ioqFill_msg (nmax : Nat) (io : RxIo) : (ioqFill nmax io).ioq.msg = io.ioq.msg := by
  have hio : (sockRead nmax io).2.ioq = io.ioq := by
    unfold sockRead
    split
    · split <;> rfl
    · dsimp only
      split
      · rfl
      · split <;> first | rfl | (split <;> rfl)
  unfold ioqFill
  have hmsg := congrArg DmsgIoq.msg hio
  split <;> rename_i heq <;> rw [heq] at hmsg <;> exact hmsg

theorem dmsgIoqMakeroom_msg (ioq : DmsgIoq) (needed : Nat) :
    (dmsgIoqMakeroom ioq needed).1.msg = ioq.msg := by
  unfold dmsgIoqMakeroom
  dsimp only
  split <;> rfl

/-- There is a message when the switch is left. -/
def LeavesMsg (res : Except IoqAssert (RxIo × Bool)) : Prop :=
  ∀ io b, res = .ok (io, b) → io.ioq.msg.isSome

theorem ioqAuxdata2Copy_leaves (io : RxIo) (msg : DmsgMsg) :
    LeavesMsg (ioqAuxdata2Copy icrc plainDecrypt io msg) := by
  intro io' b h
  unfold ioqAuxdata2Copy at h
  dsimp only at h
  split at h
  · cases h; rfl
  split at h
  · cases h
  split at h <;> cases h <;> rfl

theorem ioqAuxdata2_leaves (io : RxIo) (bytes : Nat) :
    LeavesMsg (ioqAuxdata2 icrc plainDecrypt io bytes) := by
  intro io' b h
  unfold ioqAuxdata2 at h
  split at h
  · cases h
  rename_i msg hmsg
  dsimp only at h
  split at h
  · split at h
    · cases h
    split at h
    · cases h
    split at h
    · cases h
      rw [ioqFill_msg, dmsgIoqMakeroom_msg, hmsg]
      rfl
    · exact ioqAuxdata2Copy_leaves _ _ io' b h
  · exact ioqAuxdata2Copy_leaves _ _ io' b h

theorem ioqAuxdata1_leaves (io : RxIo) (bytes : Nat) :
    LeavesMsg (ioqAuxdata1 icrc plainDecrypt io bytes) := by
  intro io' b h
  unfold ioqAuxdata1 at h
  split at h
  · cases h
  dsimp only at h
  split at h
  · split at h
    · exact ioqAuxdata2_leaves _ _ io' b h
    · cases h
  split at h
  · generalize (if io.ioq.fifoCdx < io.ioq.fifoBeg + bytes then io.ioq.fifoBeg + bytes
      else io.ioq.fifoCdx) = cdx at h
    split at h
    · exact ioqAuxdata2_leaves _ _ io' b h
    · cases h
  · exact ioqAuxdata2_leaves _ _ io' b h

theorem ioqHeader2Copy_leaves (io : RxIo) (msg : DmsgMsg) (hmsg : io.ioq.msg.isSome) :
    LeavesMsg (ioqHeader2Copy icrc plainDecrypt io msg) := by
  intro io' b h
  unfold ioqHeader2Copy at h
  dsimp only at h
  split at h
  · cases h; exact hmsg
  split at h
  · cases h
  split at h
  · cases h; rfl
  · exact ioqAuxdata1_leaves _ _ io' b h

theorem ioqHeader2_leaves (io : RxIo) (bytes nmax : Nat) :
    LeavesMsg (ioqHeader2 icrc plainDecrypt io bytes nmax) := by
  intro io' b h
  unfold ioqHeader2 at h
  split at h
  · cases h
  rename_i msg hmsg
  dsimp only at h
  have hfill : (ioqFill nmax io).ioq.msg.isSome := by rw [ioqFill_msg, hmsg]; rfl
  split at h
  · split at h
    · cases h
    split at h
    · cases h; exact hfill
    · exact ioqHeader2Copy_leaves _ _ hfill io' b h
  · exact ioqHeader2Copy_leaves _ _ (by rw [hmsg]; rfl) io' b h

/-- A receiver at rest in the middle of a message still has it behind the switch. -/
theorem ioqSwitch_leaves {T : List UInt8} {io : RxIo} (h : Rest icrc T io)
    (hmsg : io.ioq.msg.isSome) : LeavesMsg (ioqSwitch icrc plainDecrypt io) := by
  unfold ioqSwitch
  cases h with
  | header1 _ _ _ _ msg => rw [msg] at hmsg; cases hmsg
  | header2 st => rw [st]; exact ioqHeader2_leaves _ _ _
  | auxdata2 st => rw [st]; exact ioqAuxdata2_leaves _ _

/-! ## One step -/

theorem Receiver.switched_fields (r : Receiver) (io : RxIo) :
    (r.switched io).ioq = io.ioq ∧ (r.switched io).wire = io.wire ∧
      (r.switched io).stream = r.stream ∧ (r.switched io).off = r.off ∧
      ∀ id, .deliver id ∈ (r.switched io).log → .deliver id ∈ r.log := by
  unfold Receiver.switched
  split
  · exact ⟨rfl, rfl, rfl, rfl, fun id hid => by simpa using hid⟩
  · exact ⟨rfl, rfl, rfl, rfl, fun id hid => hid⟩

theorem Receiver.switched_ledger (h : r.Ledger) (io : RxIo) : (r.switched io).Ledger := by
  unfold Receiver.switched
  split
  · rename_i hc
    exact h.alloc hc.1 rfl rfl (fun id => by simp [Receiver.uses])
  · exact h.congr rfl rfl (fun _ => rfl)

theorem Receiver.switched_cur {io : RxIo} (h : r.cur.isSome → io.ioq.msg.isSome) :
    (r.switched io).cur.isSome = io.ioq.msg.isSome := by
  unfold Receiver.switched
  cases hc : r.cur with
  | some id => simp [h (by rw [hc]; rfl)]
  | none => cases io.ioq.msg <;> simp

/-- How the switch ends for a receiver between two steps, and that `cur` follows `ioq->msg`. -/
theorem RecvInv.switch (h : RecvInv icrc r) (he : r.ioq.error = none) (S : List ReadChoice) :
    SwitchPost icrc r.front r.ioq.seq S r.wire.length
        (ioqSwitch icrc plainDecrypt ⟨r.ioq, r.wire, S⟩) ∧
      ∀ io b, ioqSwitch icrc plainDecrypt ⟨r.ioq, r.wire, S⟩ = .ok (io, b) →
        (r.switched io).cur.isSome = io.ioq.msg.isSome := by
  have hrest := (h.rest he).script S
  refine ⟨ioqSwitch_spec hrest rfl ⟨fun _ hc => hc, Nat.le_refl _, fun _ _ _ => rfl⟩, ?_⟩
  intro io b hres
  exact Receiver.switched_cur fun hc => ioqSwitch_leaves hrest (h.cur ▸ hc) io b hres

/-- The error exit, where the local variable is the message in `ioq->msg`. -/
theorem Receiver.skip_spec (icrc : Crc) (hl : r.Ledger) (hoff : r.off ≤ r.stream.length)
    (e : IoqError) :
    ∃ r', r.skip r.cur e = .ok r' ∧ r'.ioq.error = some e ∧
      (∀ id, .deliver id ∈ r'.log → .deliver id ∈ r.log) ∧ RecvInv icrc r' := by
  refine ⟨_, if_neg (not_not.mpr rfl), rfl, fun id hid => ?_, nofun, ?_, hoff, rfl, ?_⟩
  · simpa using hid
  · intro e' he
    cases he
    exact ⟨rfl, rfl, List.mem_append_right _ (List.mem_singleton_self _)⟩
  · cases hc : r.cur with
    | none => exact hl.congr hc.symm rfl (fun id => by simp [Receiver.uses])
    | some id =>
      refine hl.give hc rfl rfl ?_ (fun id' hne => ?_)
      · simp [Receiver.uses]
        omega
      · simp [Receiver.uses, hne.symm]

theorem recvStep_arrive (h : RecvInv icrc r) (bs : List UInt8) :
    RecvInv icrc { r with wire := r.wire ++ bs, stream := r.stream ++ bs } := by
  refine ⟨fun he => ?_, h.errored, ?_, h.cur, h.ledger.congr rfl rfl (fun _ => rfl)⟩
  · have := (h.rest he).extend bs
    rw [Receiver.front, ← List.drop_append_of_le_length h.off] at this
    exact this
  · have := h.off
    dsimp only
    rw [List.length_append]
    omega

/-- The receiver waits in the middle of the frame. -/
theorem Receiver.switched_inv {io : RxIo} (h : RecvInv icrc r) (rest : Rest icrc r.front io)
    (hcur : (r.switched io).cur.isSome = io.ioq.msg.isSome) : RecvInv icrc (r.switched io) := by
  obtain ⟨hioq, hwire, hstream, hoff, -⟩ := r.switched_fields io
  have hfront : (r.switched io).front = r.front := by rw [Receiver.front, hstream, hoff]; rfl
  refine ⟨fun _ => ?_, fun e he => ?_, ?_, ?_, Receiver.switched_ledger h.ledger io⟩
  · rw [hfront, hioq, hwire]
    exact rest.script []
  · rw [hioq, rest.error_none] at he
    cases he
  · rw [hstream, hoff]
    exact h.off
  · rw [hioq]
    exact hcur

/-- A message is complete, and dmsg_state_msgrx takes it or asks for its removal. -/
theorem Receiver.complete_spec {m : DmsgMsg} {n : Nat} {error : Option IoqError}
    (hl : r.Ledger) (hcur : r.cur = some id) (hoff : r.off ≤ r.stream.length)
    (hframe : frame icrc r.front = .msg m n) (noErr : r.ioq.error = none) (ok : FifoOk r.ioq)
    (plain : Plain r.ioq) (left : r.front.drop n = r.ioq.fifo ++ r.wire)
    (herr : error = none ∨ error = some .ealready) :
    ∃ r', r.complete id error = .ok r' ∧ r'.ioq.error = none ∧ RecvInv icrc r' := by
  obtain ⟨hok, hp, hfifo⟩ := @ioqComplete_fifo { r.ioq with seq := r.ioq.seq + 1 }
    ⟨ok.len, ok.begEnd, ok.endLe⟩ plain
  obtain ⟨hst, her, hms, -⟩ := ioqComplete_fields { r.ioq with seq := r.ioq.seq + 1 }
  obtain ⟨-, -, -, -, hlen, -⟩ := frame_msg_inv hframe
  unfold Receiver.complete
  dsimp only
  generalize hq : ioqComplete { r.ioq with seq := r.ioq.seq + 1 } = ioq at hok hp hfifo hst her hms ⊢
  have hleft : r.front.drop n = ioq.fifo ++ r.wire := left.trans (congrArg (· ++ r.wire) hfifo.symm)
  -- the next frame starts `n` bytes further on
  have hnext : r.stream.length - (r.wire.length + (ioq.fifoEnd - ioq.fifoBeg)) = r.off + n := by
    have hl := congrArg List.length hleft
    rw [List.length_append, hok.length_fifo, List.length_drop] at hl
    rw [Receiver.front, List.length_drop] at hl hlen
    omega
  rw [hnext]
  have hrest : Rest icrc (r.stream.drop (r.off + n)) ⟨ioq, r.wire, []⟩ := by
    rw [← List.drop_drop]
    exact Rest.header1 hst hp hok (her.trans noErr) hms hleft
  have hoff' : r.off + n ≤ r.stream.length := by
    rw [Receiver.front, List.length_drop] at hlen
    omega
  have herrored : ioq.error = none := her.trans noErr
  rcases herr with rfl | rfl
  all_goals
    refine ⟨_, rfl, herrored, fun _ => hrest, fun e he => ?_, hoff', ?_, ?_⟩
    · rw [herrored] at he
      cases he
    · rw [hms]
      rfl
    · refine hl.give hcur rfl rfl ?_ (fun id' hne => ?_)
      · simp only [Receiver.uses, List.count_append, List.count_singleton_self]
        grind
      · simp [Receiver.uses, hne.symm]

theorem recvStep_read {S : List ReadChoice} {error : Option IoqError} (h : RecvInv icrc r)
    (hs : Sane icrc r (.read S error)) (he : r.ioq.error = none) :
    ∃ r', recvStep icrc r (.read S error) = .ok r' ∧ RecvInv icrc r' ∧ Ends icrc r.front S r r' := by
  obtain ⟨hcrash, haccept⟩ := hs he
  obtain ⟨hsw, hcur⟩ := h.switch he S
  unfold recvStep
  rw [he]
  dsimp only
  generalize ioqSwitch icrc plainDecrypt ⟨r.ioq, r.wire, S⟩ = res at hsw hcur
  cases hsw with
  | crash framed => exact absurd framed hcrash
  | @more io rest short =>
    obtain ⟨hioq, hwire, -⟩ := r.switched_fields io
    refine ⟨r.switched io, ?_, Receiver.switched_inv h rest (hcur io _ rfl),
      fun herr => absurd (hioq ▸ rest.error_none) herr, fun e hf => ?_⟩
    · dsimp only
      rw [Receiver.finish, hioq, rest.error_none]
      rfl
    · refine Or.inr (Or.inl ⟨by rw [hioq, rest.error_none], fun hnil => ?_⟩)
      rw [hwire] at hnil
      rw [short hnil] at hf
      cases hf
  | @bad io e b err msg cause =>
    obtain ⟨hioq, -, hstream, hoff, hdel⟩ := r.switched_fields io
    have hc := hcur io b rfl
    -- the local variable is NULL when `ioq->msg` is
    have hlocal : (if b then (r.switched io).cur else none) = (r.switched io).cur := by
      rw [msg] at hc
      cases b with
      | true => rfl
      | false => exact (Option.not_isSome_iff_eq_none.mp (by simp [hc])).symm
    obtain ⟨r', hskip, her, hdel', hinv⟩ := Receiver.skip_spec icrc
      (Receiver.switched_ledger h.ledger io) (by rw [hstream, hoff]; exact h.off) e
    refine ⟨r', ?_, hinv, fun _ id hid => hdel id (hdel' id hid), fun e' hf => ?_⟩
    · dsimp only
      rw [Receiver.finish, hioq, err]
      dsimp only
      rw [hlocal, hskip]
    · rcases cause with hfe | hsock
      · rw [hfe] at hf
        cases hf
        exact Or.inl her
      · exact Or.inr (Or.inr ⟨e, her, hsock⟩)
  | @done io m n noErr ok plain msg framed left =>
    obtain ⟨hioq, hwire, hstream, hoff, hdel⟩ := r.switched_fields io
    have hc := hcur io _ rfl
    rw [msg] at hc
    obtain ⟨id, hid⟩ := Option.isSome_iff_exists.mp hc
    have hle : (r.switched io).off ≤ (r.switched io).stream.length := by
      rw [hstream, hoff]
      exact h.off
    have hl := Receiver.switched_ledger h.ledger io
    have hfront : (r.switched io).front = r.front := by rw [Receiver.front, hstream, hoff]; rfl
    have hnot : ∀ e, frame icrc r.front ≠ .error e := by
      intro e hf
      rw [framed] at hf
      cases hf
    dsimp only
    rw [Receiver.finish, hioq, noErr]
    simp only [if_true, msg, hid]
    split
    · obtain ⟨r', hskip, -, hdel', hinv⟩ := Receiver.skip_spec icrc hl hle .msgseq
      rw [hid] at hskip
      exact ⟨r', hskip, hinv, fun _ id hid => hdel id (hdel' id hid), fun e hf => absurd hf (hnot e)⟩
    · obtain ⟨r', hr', hno, hinv⟩ := Receiver.complete_spec hl hid hle (hfront ▸ framed) (hioq ▸ noErr)
        (hioq ▸ ok) (hioq ▸ plain) (by rw [hfront, hioq, hwire]; exact left) (haccept m n framed)
      exact ⟨r', hr', hinv, fun herr => absurd hno herr, fun e hf => absurd hf (hnot e)⟩

theorem recvStep_ok (a : RecvAction) (h : RecvInv icrc r) (hs : Sane icrc r a) :
    ∃ r', recvStep icrc r a = .ok r' ∧ RecvInv icrc r' := by
  cases a with
  | arrive bs => exact ⟨_, rfl, recvStep_arrive h bs⟩
  | read S error =>
    cases he : r.ioq.error with
    | none =>
      obtain ⟨r', hr', hinv, -⟩ := recvStep_read h hs he
      exact ⟨r', hr', hinv⟩
    | some e =>
      have hnone : r.cur = none := by
        have hc := h.cur
        rw [(h.errored e he).1] at hc
        exact Option.not_isSome_iff_eq_none.mp (by simp [hc])
      obtain ⟨r', hskip, -, -, hinv⟩ := Receiver.skip_spec icrc h.ledger h.off e
      rw [hnone] at hskip
      refine ⟨r', ?_, hinv⟩
      rw [recvStep, he]
      exact hskip

theorem recvStep_answers (a : RecvAction) (h : RecvInv icrc r) (hs : Sane icrc r a) :
    Answers icrc r a := by
  cases a with
  | arrive bs => trivial
  | read S error =>
    intro he
    obtain ⟨r', hr', -, hends⟩ := recvStep_read h hs he
    exact ⟨r', hr', hends⟩

/-- When dmsg_state_msgrx succeeds, a step does to the ioq and the socket what a pass of the framing
    model does. -/
theorem recvStep_read_eq_pass (h : RecvInv icrc r) (S : List ReadChoice) :
    (recvStep icrc r (.read S none)).map (fun r' => (r'.ioq, r'.wire)) =
      (ioqReadPass icrc plainDecrypt ⟨r.ioq, r.wire, S⟩).map (fun p => (p.1.ioq, p.1.wire)) := by
  unfold recvStep ioqReadPass
  cases he : r.ioq.error with
  | some e =>
    have hmsg := (h.errored e he).1
    have hnone : r.cur = none := by
      have hc := h.cur
      rw [hmsg] at hc
      exact Option.not_isSome_iff_eq_none.mp (by simp [hc])
    dsimp only
    rw [Receiver.skip, ioqSkip, if_neg (not_not.mpr hnone), if_neg (by simp [hmsg])]
    rfl
  | none =>
    obtain ⟨hsw, hcur⟩ := h.switch he S
    dsimp only
    generalize ioqSwitch icrc plainDecrypt ⟨r.ioq, r.wire, S⟩ = res at hsw hcur
    cases hsw with
    | crash => rfl
    | @more io rest =>
      obtain ⟨hioq, hwire, -⟩ := r.switched_fields io
      dsimp only
      rw [Receiver.finish, ioqFinish, hioq, rest.error_none]
      simp only [Bool.false_eq_true, if_false, Except.map, hioq, hwire]
    | @bad io e b err msg =>
      obtain ⟨hioq, hwire, -⟩ := r.switched_fields io
      have hc := hcur io b rfl
      rw [msg] at hc
      have hlocal : (r.switched io).cur = if b then (r.switched io).cur else none := by
        cases b with
        | true => rfl
        | false => exact Option.not_isSome_iff_eq_none.mp (by simp [hc])
      dsimp only
      rw [Receiver.finish, ioqFinish, hioq, err]
      dsimp only
      rw [Receiver.skip, ioqSkip, if_neg (not_not.mpr hlocal), if_neg (not_not.mpr msg)]
      simp only [Except.map, hioq, hwire]
    | @done io m n noErr ok plain msg =>
      obtain ⟨hioq, hwire, -⟩ := r.switched_fields io
      have hc := hcur io _ rfl
      rw [msg] at hc
      obtain ⟨id, hid⟩ := Option.isSome_iff_exists.mp hc
      dsimp only
      rw [Receiver.finish, ioqFinish, hioq, noErr]
      simp only [if_true, msg, hid]
      split
      · rw [Receiver.skip, ioqSkip, if_neg (not_not.mpr hid), if_neg (by simp [msg])]
        simp only [Except.map, hioq, hwire]
      · simp only [Receiver.complete, Except.map, hioq, hwire, msg]

end

/-- A message with aux data of which the header has arrived, so that it is in `ioq->msg`. -/
def headArrived : List RecvAction :=
  [.arrive ((bareHead 64).bytes ++ List.replicate 64 0), .read [.bytes 64, .again] none]

/-- The aux data arrives, and the message is returned. -/
theorem recvStep_read_eq_pass_delivered : ∃ r r',
    run (recvStep fun _ => 0) recvInit headArrived = .ok r ∧ r.cur = some 0 ∧
    recvStep (fun _ => 0) r (.read [.bytes 64] none) = .ok r' ∧ r'.log = [.alloc 0, .deliver 0] ∧
    (ioqReadPass (fun _ => 0) plainDecrypt ⟨r.ioq, r.wire, [.bytes 64]⟩).map
      (fun p => (p.1.ioq, p.1.wire)) = .ok (r'.ioq, r'.wire) := by
  have hs : Along (recvStep fun _ => 0) (Sane fun _ => 0) recvInit headArrived := by
    decide +kernel
  obtain ⟨r, hr, hinv⟩ := run_ok (fun r a => recvStep_ok a) _ _ (recvInit_inv _) hs
  have hend : ∀ r, run (recvStep fun _ => 0) recvInit headArrived = .ok r →
      r.cur = some 0 ∧ (recvStep (fun _ => 0) r (.read [.bytes 64] none)).isOk = true ∧
      ∀ r', recvStep (fun _ => 0) r (.read [.bytes 64] none) = .ok r' →
        r'.log = [.alloc 0, .deliver 0] := by
    decide +kernel
  obtain ⟨hcur, hok, hlog⟩ := hend r hr
  obtain ⟨r', hr'⟩ := exists_ok hok
  refine ⟨r, r', hr, hcur, hr', hlog r' hr', ?_⟩
  rw [← recvStep_read_eq_pass hinv, hr']
  rfl

/-- In every run in which no complete extended header fails its CRC and dmsg_state_msgrx rejects
    no message, whatever else the peer sends and however it arrives, no assertion fails, every
    message is freed or returned once, and an error leaves no message behind and has been handed
    to the open transactions. -/
theorem receive_loop_survives (icrc : Crc) (as : List RecvAction)
    (hs : Along (recvStep icrc) (Sane icrc) recvInit as) :
    Along (recvStep icrc) (Answers icrc) recvInit as ∧
      ∃ r, run (recvStep icrc) recvInit as = .ok r ∧ r.Errored ∧ r.Ledger := by
  refine ⟨?_, ?_⟩
  · refine Along.mono (fun r a r' h hs hr => ?_) (fun r a => recvStep_answers a) as _
      (recvInit_inv icrc) hs
    obtain ⟨r'', hr'', hinv⟩ := recvStep_ok a h hs
    rw [hr''] at hr
    cases hr
    exact hinv
  · obtain ⟨r, hr, hinv⟩ := run_ok (fun r a => recvStep_ok a) as _ (recvInit_inv icrc) hs
    exact ⟨r, hr, hinv.errored, hinv.ledger⟩

/-! ## The two assertions -/

section

variable {icrc : Crc} {r : Receiver}

/-- What dmsg_ioq_read does at the frame `T` when dmsg_state_msgrx rejects messages: an assertion
    fails. -/
inductive Fatal (icrc : Crc) (T : List UInt8) (seq : Nat) : IoqAssert → Prop
  | xcrc (framed : frame icrc T = .crash) : Fatal icrc T seq .badXcrc
  | reject {m : DmsgMsg} {n : Nat} (framed : frame icrc T = .msg m n)
      (salt : (m.head.salt &&& 255).toNat = seq % 256) : Fatal icrc T seq .errorMsg

/-- Completion resets `ioq->msg`, so the error exit finds the local variable different from it. -/
theorem Receiver.complete_rejected (r : Receiver) (id : Nat) {e : IoqError} (he : e ≠ .ealready) :
    r.complete id (some e) = .error .errorMsg := by
  have hskip : ∀ r : Receiver, r.cur = none → r.skip (some id) e = .error .errorMsg := by
    intro r hr
    rw [Receiver.skip, if_pos (by simp [hr])]
  cases e <;> first | exact absurd rfl he | exact hskip _ rfl

/-- A read of one byte fails the assertion, or leaves fewer bytes in the socket. -/
theorem read_fails_or_drains {a : IoqAssert} (h : RecvInv icrc r) (he : r.ioq.error = none)
    (hbad : Fatal icrc r.front r.ioq.seq a) :
    recvStep icrc r (.read [.bytes 1] (some .trans)) = .error a ∨
      ∃ r', recvStep icrc r (.read [.bytes 1] (some .trans)) = .ok r' ∧ RecvInv icrc r' ∧
        r'.ioq.error = none ∧ r'.front = r.front ∧ r'.ioq.seq = r.ioq.seq ∧
        r'.wire.length < r.wire.length := by
  obtain ⟨hsw, hcur⟩ := h.switch he [.bytes 1]
  unfold recvStep
  rw [he]
  dsimp only
  generalize ioqSwitch icrc plainDecrypt ⟨r.ioq, r.wire, [.bytes 1]⟩ = res at hsw hcur
  have hmore : frame icrc r.front ≠ .more := by
    cases hbad with
    | xcrc framed => rw [framed]; nofun
    | reject framed => rw [framed]; nofun
  cases hsw with
  | crash framed =>
    cases hbad with
    | xcrc => exact Or.inl rfl
    | reject framed' => rw [framed] at framed'; cases framed'
  | @more io rest short fed seq le =>
    obtain ⟨hioq, hwire, hstream, hoff, -⟩ := r.switched_fields io
    refine Or.inr ⟨r.switched io, ?_, Receiver.switched_inv h rest (hcur io _ rfl),
      hioq ▸ rest.error_none, by rw [Receiver.front, hstream, hoff]; rfl, hioq ▸ seq, ?_⟩
    · dsimp only
      rw [Receiver.finish, hioq, rest.error_none]
      rfl
    · have hne : io.wire ≠ [] := fun hnil => hmore (short hnil)
      have hpos := List.length_pos_iff.mpr hne
      rw [hwire]
      exact fed ⟨0, [], rfl⟩ (by omega)
  | bad err msg cause =>
    rcases cause with hfe | ⟨-, hm⟩ | ⟨-, hm⟩
    · cases hbad with
      | xcrc framed => rw [hfe] at framed; cases framed
      | reject framed => rw [hfe] at framed; cases framed
    · simp at hm
    · simp at hm
  | @done io m n noErr ok plain msg framed left seq =>
    cases hbad with
    | xcrc framed' => rw [framed] at framed'; cases framed'
    | reject framed' salt =>
      rw [framed] at framed'
      cases framed'
      obtain ⟨hioq, -⟩ := r.switched_fields io
      have hc := hcur io _ rfl
      rw [msg] at hc
      obtain ⟨id, hid⟩ := Option.isSome_iff_exists.mp hc
      refine Or.inl ?_
      dsimp only
      rw [Receiver.finish, hioq, noErr]
      simp only [if_true, msg, hid]
      rw [if_neg (not_not.mpr (by rw [seq]; exact salt))]
      exact (r.switched io).complete_rejected id nofun

theorem reads_fail {a : IoqAssert} (N : Nat) (r : Receiver) (h : RecvInv icrc r)
    (he : r.ioq.error = none) (hbad : Fatal icrc r.front r.ioq.seq a) (hN : r.wire.length < N) :
    ∃ as, run (recvStep icrc) r as = .error a := by
  induction N generalizing r with
  | zero => omega
  | succ N ih =>
    rcases read_fails_or_drains h he hbad with hfail | ⟨r1, hstep, hinv, he1, hfront, hseq, hlt⟩
    · exact ⟨[.read [.bytes 1] (some .trans)], by rw [run, hfail]⟩
    · obtain ⟨as, hrun⟩ := ih r1 hinv he1 (by rw [hfront, hseq]; exact hbad) (by omega)
      exact ⟨.read [.bytes 1] (some .trans) :: as, (run_cons_ok hstep as).trans hrun⟩

/-- A peer whose first bytes are a frame of that kind. -/
theorem peer_fails {a : IoqAssert} {bs : List UInt8} (hbad : Fatal icrc bs 0 a) :
    ∃ as, run (recvStep icrc) recvInit as = .error a := by
  obtain ⟨as, hrun⟩ := reads_fail _ _ (recvStep_arrive (recvInit_inv icrc) bs) rfl hbad
    (Nat.lt_succ_self _)
  exact ⟨.arrive bs :: as, (run_cons_ok rfl as).trans hrun⟩

end

/-- Whatever the CRC is, a header can have a wrong one, and a message with the right one can be
    rejected. -/
theorem fatal_frames (icrc : Crc) :
    (∃ bs, Fatal icrc bs 0 .badXcrc) ∧ ∃ bs, Fatal icrc bs 0 .errorMsg := by
  have hframe := frame_bareHead icrc (show doalign32 0 = 0 by decide)
  have hwrong : icrc (bareHead 0).bytes ≠ icrc (bareHead 0).bytes + 1 := by simp
  have hxcrc := (hframe (icrc (bareHead 0).bytes + 1)).trans (if_pos hwrong)
  have hmsg := (hframe (icrc (bareHead 0).bytes)).trans (if_neg (not_not.mpr rfl))
  refine ⟨⟨_, .xcrc hxcrc⟩, ⟨_, .reject hmsg ?_⟩⟩
  change ((0 : UInt32) &&& 255).toNat = 0 % 256
  decide

/-- A peer that sends a header with a wrong CRC fails `assert(0)`, and one whose message
    dmsg_state_msgrx rejects fails the assertion on the error exit. -/
theorem receive_loop_asserts :
    (∃ as, run (recvStep iscsiCrc32) recvInit as = .error .badXcrc) ∧
      ∃ as, run (recvStep iscsiCrc32) recvInit as = .error .errorMsg := by
  obtain ⟨⟨_, hxcrc⟩, ⟨_, hmsg⟩⟩ := fatal_frames iscsiCrc32
  exact ⟨peer_fails hxcrc, peer_fails hmsg⟩

/-- A peer that sends a message and then bytes that are no header. -/
theorem receive_loop_survives_sync :
    Along (recvStep fun _ => 0) (Sane fun _ => 0) recvInit
        [.arrive ((bareHead 0).bytes ++ List.replicate 64 0), .read [.bytes 128] none,
          .read [] none] ∧
      ∃ r, run (recvStep fun _ => 0) recvInit
          [.arrive ((bareHead 0).bytes ++ List.replicate 64 0), .read [.bytes 128] none,
            .read [] none] = .ok r ∧ r.Errored ∧ r.Ledger := by
  have hs : Along (recvStep fun _ => 0) (Sane fun _ => 0) recvInit
      [.arrive ((bareHead 0).bytes ++ List.replicate 64 0), .read [.bytes 128] none,
        .read [] none] := by
    decide +kernel
  exact ⟨hs, (receive_loop_survives (fun _ => 0) _ hs).2⟩

end Lh1.Dmsg
