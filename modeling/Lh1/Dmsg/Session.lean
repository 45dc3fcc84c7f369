/-
  The core loop of an iocom, `dmsg_iocom_core` (lib/libdmsg/msg.c), with `dmsg_ioq_read`.

  The loop reads messages and hands them to the callback until DMSG_IOCOMF_EOF is set. When the
  link breaks, `dmsg_ioq_read` ends all open transactions by `dmsg_simulate_failure` and returns
  NULL, unless there is a message on `ioq_rx.msgq`. The message that would end the session has to
  come from that queue, into which nothing inserts: the line of `dmsg_state_abort` that did is
  compiled out.

  * `Session.Stuck.run`: whatever happens, nothing comes onto the receive queue, EOF is not set
    and no message is handled once the link is broken.
  * `session_never_ends`: so no session comes to its final message or leaves the loop.
  * `session_hangs`: the link breaks with one transaction open; it is closed, and the loop goes on.
-/
import Lh1.Dmsg.Ioq
import Lh1.Dmsg.Machine
import Lh1.Lib.Fallible

namespace Lh1.Dmsg

open Lh1.Lib

/-! ## The loop -/

/-- `head.cmd` as the transaction layer reads it. -/
def Cmd.ofWord (cmd : UInt32) : Cmd where
  create := cmd &&& 0x80000000 ≠ 0
  delete := cmd &&& 0x40000000 ≠ 0
  reply := cmd &&& 0x20000000 ≠ 0
  abort := cmd &&& 0x10000000 ≠ 0
  revtrans := cmd &&& 0x08000000 ≠ 0
  revcirc := cmd &&& 0x04000000 ≠ 0
  base := (cmd &&& 0x03FFFFFF).toNat

/-- A message that is complete, as `dmsg_state_msgrx` gets it. -/
def DmsgMsg.transHdr (m : DmsgMsg) : TransHdr where
  cmd := .ofWord m.head.cmd
  msgid := m.head.msgid.toNat
  circuit := m.head.circuit.toNat
  error := m.head.error.toNat
  reserved02 := m.head.reserved02.toNat
  linkVerifier := m.head.linkVerifier.toNat
  auxCrc := m.head.auxCrc.toNat
  auxDescr := m.head.auxDescr.toNat
  reserved38 := m.head.reserved38.toNat
  ext := m.ext

/-- Where `dmsg_iocom_core` is. -/
inductive Pc where
  | core       -- at the head of the outer loop
  | read       -- before the call of `dmsg_ioq_read`, or at its `again:`
  | handling   -- the callback for the message, and its cleanup
  | failing    -- in `dmsg_simulate_failure`
  | left
  deriving DecidableEq, Repr

/-- An iocom. `msg` is what the last call of `dmsg_ioq_read` returned. -/
structure Session where
  io : RxIo
  msgq : List Nat
  msg : Option Nat
  eof : Bool
  rreq : Bool
  rwork : Bool
  pc : Pc
  M : Machine

/-- A new iocom with number `i`. -/
def Session.start (i : Nat) : Session where
  io := { ioq := dmsgIoqInit, wire := [], script := [] }
  msgq := []
  msg := none
  eof := false
  rreq := true
  rwork := false
  pc := .core
  M := { t := { Trans.init with heap := Store.empty.insert (.root i) (state0 i) }, stack := [] }

inductive SessionInput where
  | arrive (bs : List UInt8)
  | loop (work : Bool)                 -- the outer loop, with work for the reader or not
  | read (script : List ReadChoice)
  | machine (inp : Input)              -- in a callback, in `dmsg_simulate_failure`, in another thread
  | done                               -- the calls are over
  deriving DecidableEq, Repr

inductive SessionFault where
  | trans (f : Fault)
  | ioq (a : IoqAssert)
  deriving DecidableEq, Repr

section

variable (icrc : Crc) (decrypt : DmsgIoq → DmsgIoq) (env : Env) (i : Nat)

/-- `iocom->rcvmsg_callback(msg)` and `dmsg_state_cleanuprx`. -/
def handle (m : Nat) : TransM (List Frame) := do
  let fs ← deliver env m
  pure (fs ++ [.coreCleanup i m])

/-- Calls of the transaction layer from the loop. -/
def Session.enter (s : Session) (x : TransM (List Frame)) : Except SessionFault Session :=
  match x s.M.t with
  | .ok (fs, t) => .ok { s with M := { t := t, stack := fs } }
  | .error f => .error (.trans f)

/-- Whether `msg->state == &iocom->state0`. -/
def boundToRoot (t : Trans) (m : Nat) : Bool :=
  (t.msgs.get m).any (·.state = .root i)

/-- A complete message goes to `dmsg_state_msgrx`. -/
def Session.receive (s : Session) (x : DmsgMsg) : Except SessionFault Session :=
  match ioqRead env i x.transHdr (x.auxData.take x.auxSize) s.M.t with
  | .error f => .error (.trans f)
  | .ok (none, t) => .ok { s with M := { t := t, stack := [] } }
  | .ok (some m, t) =>
    Session.enter { s with msg := some m, pc := .handling, M := { t := t, stack := [] } }
      (handle env i m)

/-- `dmsg_ioq_read`, up to a callback. The message that is being received is made when it is
    complete, so the error exit has none to free. -/
def Session.ioqRead (s : Session) (script : List ReadChoice) : Except SessionFault Session :=
  match s.msgq with
  | m :: ms =>
    Session.enter { s with
      msgq := ms, msg := some m, pc := .handling, eof := s.eof || boundToRoot i s.M.t m }
      (handle env i m)
  | [] =>
    match ioqReadPass icrc decrypt { s.io with script := script } with
    | .error a => .error (.ioq a)
    | .ok (io, .blocked) =>
      .ok { s with io := io, msg := none, rreq := true, rwork := false, pc := .core }
    | .ok (io, .message x) =>
      let idle := io.ioq.fifoBeg = 0 ∧ io.ioq.fifoEnd = 0
      Session.receive env i { s with io := io, rreq := decide idle, rwork := !decide idle } x
    | .ok (io, .failed _) =>
      Session.enter { s with io := io, rreq := false, rwork := false, pc := .failing }
        (Dmsg.enter env (.linkError i))

def Session.step (s : Session) : SessionInput → Except SessionFault Session
  | .arrive bs => .ok { s with io := { s.io with wire := s.io.wire ++ bs } }
  | .loop work =>
    if s.pc = .core ∧ s.M.stack = [] then
      .ok { s with pc := if s.eof then .left else if s.rwork || work then .read else .core }
    else .error (.trans .stuck)
  | .read script =>
    if s.pc = .read ∧ s.M.stack = [] then
      if s.eof then .ok { s with pc := .core } else s.ioqRead icrc decrypt env i script
    else .error (.trans .stuck)
  | .machine inp =>
    match Dmsg.step env s.M inp with
    | .ok M => .ok { s with M := M }
    | .error f => .error (.trans f)
  | .done =>
    if s.M.stack = [] then
      match s.pc with
      | .handling => .ok { s with pc := .read }
      | .failing =>
        if s.msgq = [] then .ok { s with msg := none, pc := .core } else .ok { s with pc := .read }
      | _ => .error (.trans .stuck)
    else .error (.trans .stuck)

end

/-! ## Nothing comes onto the receive queue -/

section

variable {icrc : Crc} {decrypt : DmsgIoq → DmsgIoq} {env : Env} {i : Nat}
  {s s' : Session}

/-- The receive queue is empty, EOF is not set, and a broken link brings no message. -/
structure Session.Stuck (s : Session) : Prop where
  msgq : s.msgq = []
  eof : s.eof = false
  pc : s.pc ≠ .left
  quiet : s.io.ioq.error ≠ none → s.pc ≠ .handling

theorem ioqSkip_ne_message {io io' : RxIo} {e : IoqError} {have_ : Bool} {x : DmsgMsg} :
    ioqSkip io e have_ ≠ .ok (io', .message x) := by
  unfold ioqSkip
  split <;> simp

/-- A message comes only from a link that is not broken. -/
theorem ioqReadPass_message {io io' : RxIo} {x : DmsgMsg}
    (h : ioqReadPass icrc decrypt io = .ok (io', .message x)) : io'.ioq.error = none := by
  unfold ioqReadPass at h
  split at h
  · exact absurd h ioqSkip_ne_message
  · split at h
    · cases h
    · unfold ioqFinish at h
      split at h
      · exact absurd h ioqSkip_ne_message
      · next herr =>
          split at h
          · split at h
            · cases h
            · split at h
              · exact absurd h ioqSkip_ne_message
              · cases h
                unfold ioqComplete
                dsimp only
                split
                · exact herr
                · exact herr
          · cases h

theorem Session.Stuck.enter {x : TransM (List Frame)} (hs : s.Stuck) (h : s.enter x = .ok s') :
    s'.Stuck := by
  unfold Session.enter at h
  split at h
  · cases h
    exact ⟨hs.msgq, hs.eof, hs.pc, hs.quiet⟩
  · cases h

theorem Session.Stuck.receive {x : DmsgMsg} (hs : s.Stuck) (hio : s.io.ioq.error = none)
    (h : s.receive env i x = .ok s') : s'.Stuck := by
  unfold Session.receive at h
  split at h
  · cases h
  · cases h
    exact ⟨hs.msgq, hs.eof, hs.pc, hs.quiet⟩
  · refine Session.Stuck.enter ?_ h
    exact ⟨hs.msgq, hs.eof, nofun, fun hne => absurd hio hne⟩

/-- A read of the link, whatever comes of it. -/
theorem Session.Stuck.ioqRead {script : List ReadChoice} (hs : s.Stuck)
    (h : s.ioqRead icrc decrypt env i script = .ok s') : s'.Stuck := by
  unfold Session.ioqRead at h
  rw [hs.msgq] at h
  dsimp only at h
  split at h
  · cases h
  · cases h
    exact ⟨rfl, hs.eof, nofun, fun _ => nofun⟩
  · next hpass =>
      have hio := ioqReadPass_message hpass
      refine Session.Stuck.receive ?_ hio h
      exact ⟨rfl, hs.eof, hs.pc, fun hne => absurd hio hne⟩
  · refine Session.Stuck.enter ?_ h
    exact ⟨rfl, hs.eof, nofun, fun _ => nofun⟩

theorem Session.Stuck.step {inp : SessionInput} (hs : s.Stuck)
    (h : s.step icrc decrypt env i inp = .ok s') : s'.Stuck := by
  cases inp with
  | arrive bs =>
    cases h
    exact ⟨hs.msgq, hs.eof, hs.pc, hs.quiet⟩
  | loop work =>
    rw [Session.step] at h
    split at h
    · cases h
      have hpc : (if s.eof then Pc.left else if s.rwork || work then .read else .core) = .read ∨
          (if s.eof then Pc.left else if s.rwork || work then .read else .core) = .core := by
        rw [hs.eof, if_neg Bool.false_ne_true]
        split
        · exact Or.inl rfl
        · exact Or.inr rfl
      refine ⟨hs.msgq, hs.eof, ?_, fun _ => ?_⟩
      · rcases hpc with hpc | hpc <;> rw [hpc] <;> nofun
      · rcases hpc with hpc | hpc <;> rw [hpc] <;> nofun
    · cases h
  | read script =>
    rw [Session.step] at h
    rw [hs.eof, if_neg Bool.false_ne_true] at h
    split at h
    · exact hs.ioqRead h
    · cases h
  | machine inp =>
    rw [Session.step] at h
    split at h
    · cases h
      exact ⟨hs.msgq, hs.eof, hs.pc, hs.quiet⟩
    · cases h
  | done =>
    rw [Session.step] at h
    split at h
    · split at h
      · cases h
        exact ⟨hs.msgq, hs.eof, nofun, fun _ => nofun⟩
      · rw [if_pos hs.msgq] at h
        cases h
        exact ⟨hs.msgq, hs.eof, nofun, fun _ => nofun⟩
      · cases h
    · cases h

theorem Session.Stuck.run {ins : List SessionInput} (hs : s.Stuck)
    (h : run (Session.step icrc decrypt env i) s ins = .ok s') : s'.Stuck :=
  run_inv (P := fun _ _ => True) (fun _ _ _ hs _ h => hs.step h) ins s s' hs
    (Along.of_forall (fun _ _ _ => trivial) s) h

end

/-! ## The final message -/

/-- `dmsg_ioq_read` has returned a LNK_ERROR that belongs to no transaction and is bound to
    `state0`, and it has set EOF. -/
def Session.Final (i : Nat) (s : Session) : Prop :=
  s.eof = true ∧ ∃ m x, s.msg = some m ∧ s.M.t.msgs.get m = some x ∧ x.state = .root i ∧
    x.cmd.base = dmsgLnkError ∧ x.cmd.create = false ∧ x.cmd.delete = false

/-- A transaction is opened here, and its message is sent. -/
def openSent : List Input :=
  [.call (.alloc (.root 0) [] { create := true, base := 1 } .user false), .run,
    .call (.write 1), .run, .run, .run, .run, .run, .flush1 0, .sent 0 1]

/-- The open transaction is aborted, and its callback closes it. -/
def abortedClosed : List Input :=
  List.replicate 6 .run ++ [.call (.msgReply 1 0)] ++ List.replicate 7 .run ++ [.ret] ++
    List.replicate 7 .run

/-- The peer closes the link. -/
def brokenRun : List SessionInput :=
  openSent.map .machine ++ [.loop true, .read [.eof]] ++ abortedClosed.map .machine ++ [.done]

def nextTurn : List SessionInput :=
  [.loop true, .read []] ++ (List.replicate 4 Input.run).map .machine ++ [.done]

/-- No transaction is left, and the loop is at its head again. -/
theorem brokenRun_ok : ∃ s,
    run (Session.step (fun _ => 0) plainDecrypt .bump 0) (.start 0) (brokenRun ++ nextTurn) = .ok s ∧
      s.io.ioq.error = some .eof ∧ s.M.t.heap.entries.map Prod.fst = [.root 0] ∧
      s.pc = .core ∧ s.msg = none ∧ s.eof = false := by
  obtain ⟨s, hs⟩ := exists_ok (x := run (Session.step (fun _ => 0) plainDecrypt .bump 0) (.start 0)
    (brokenRun ++ nextTurn)) (by decide +kernel)
  have hend : ∀ s, run (Session.step (fun _ => 0) plainDecrypt .bump 0) (.start 0)
      (brokenRun ++ nextTurn) = .ok s →
      s.io.ioq.error = some .eof ∧ s.M.t.heap.entries.map Prod.fst = [.root 0] ∧
        s.pc = .core ∧ s.msg = none ∧ s.eof = false := by
    decide +kernel
  exact ⟨s, hs, hend s hs⟩

/-- Whatever comes over the link and however it breaks, whatever the callbacks and other threads
    do: there is no final message, EOF is not set and the loop is not left. Once the link is
    broken, `dmsg_ioq_read` returns no message at all. -/
theorem session_never_ends (icrc : Crc) (decrypt : DmsgIoq → DmsgIoq) (env : Env)
    (i : Nat) (ins : List SessionInput) (s : Session)
    (h : run (Session.step icrc decrypt env i) (.start i) ins = .ok s) :
    ¬ s.Final i ∧ s.eof = false ∧ s.pc ≠ .left ∧ (s.io.ioq.error ≠ none → s.pc ≠ .handling) := by
  have hs : s.Stuck := by
    refine Session.Stuck.run ?_ h
    exact ⟨rfl, rfl, nofun, fun _ => nofun⟩
  refine ⟨fun hfinal => ?_, hs.eof, hs.pc, hs.quiet⟩
  have heof := hs.eof
  rw [hfinal.1] at heof
  cases heof

theorem session_never_ends_broken : ∃ s,
    run (Session.step (fun _ => 0) plainDecrypt .bump 0) (.start 0) (brokenRun ++ nextTurn) = .ok s ∧
      s.io.ioq.error = some .eof ∧ ¬ s.Final 0 ∧ s.eof = false ∧ s.pc ≠ .left := by
  obtain ⟨s, hs, herr⟩ := brokenRun_ok
  obtain ⟨hfinal, heof, hpc, -⟩ := session_never_ends _ _ _ 0 _ s hs
  exact ⟨s, hs, herr.1, hfinal, heof, hpc⟩

/-- The loop goes on: `dmsg_ioq_read` returns NULL, then and later. -/
theorem session_hangs : ∃ s,
    run (Session.step (fun _ => 0) plainDecrypt .bump 0) (.start 0) (brokenRun ++ nextTurn) = .ok s ∧
      s.io.ioq.error = some .eof ∧ s.M.t.heap.entries.map Prod.fst = [.root 0] ∧
      s.pc = .core ∧ s.msg = none ∧ ¬ s.Final 0 := by
  obtain ⟨s, hs, herr, hheap, hpc, hmsg, heof⟩ := brokenRun_ok
  refine ⟨s, hs, herr, hheap, hpc, hmsg, fun hfinal => ?_⟩
  rw [hfinal.1] at heof
  cases heof

end Lh1.Dmsg
