/-
  The transaction layer as a machine.

  A receive callback can call back into the library, from the middle of `dmsg_state_abort`
  as well. So a function that can reach a callback returns the calls that are left to make,
  as `Frame`s, and `step` runs a stack of them. `Frame.callback m` on top means that the
  callback of message `m` is running: it may call the library (`Input.call`) or return.
  While it runs, or while no call is in progress, anything may happen on any iocom.
-/
import Lh1.Dmsg.Trans
import Lh1.Lib.Bytes

namespace Lh1.Dmsg

open Lh1.Lib

/-! ## Calls in progress -/

/-- The calls of the library. -/
inductive Call where
  | alloc (a : Addr) (aux : List UInt8) (cmd : Cmd) (func : RxFunc) (data : Bool)
  | fill (m : Nat) (error : Nat) (ext aux : List UInt8)
  | write (m : Nat)
  | free (m : Nat)
  | msgReply (m : Nat) (error : Nat)
  | msgResult (m : Nat) (error : Nat)
  | stateReply (a : Addr) (error : Nat)
  | stateResult (a : Addr) (error : Nat)
  /-- `state->func` and `state->any` are set by a handler. -/
  | claim (a : Addr) (func : RxFunc) (any : Bool)
  | hold (a : Addr)
  | drop (a : Addr)
  /-- `dmsg_generate_relay` for a connection on iocom `i` and the link of the state `src`. -/
  | generateRelay (i : Nat) (src : Addr) (span : TransHdr)
  | relayDelete (target src : Addr)
  deriving DecidableEq, Repr

/-- What is left to do in a function that can reach a receive callback. -/
inductive Frame where
  | callback (m : Nat)
  | coreCleanup (i m : Nat)
  | abortCleanup (i m : Nat)
  | call (c : Call)
  | cleanuptx (i m : Nat)
  | writeDying (a : Addr)
  | enqueue (i m : Nat)
  | msgFree (m : Nat)
  | unlock (i : Nat)
  | simulate (a : Addr) (meto : Bool)
  | scanSubq (a : Addr) (after : Option Addr)
  | scanCheck (a sub : Addr)
  | abort (a : Addr)
  | abortSim (a : Addr)
  | dying (a : Addr)
  | drop (a : Addr)
  deriving DecidableEq, Repr

/-! ## Sending -/

/-- `dmsg_msg_write` fills in the message and notes a CREATE in its state. -/
def txPrepare (m : Nat) (x : TransMsg) : TransM Unit := do
  let s ← deref x.state
  updMsg m fun x => { x with msgid := s.msgid }
  whenT (x.cmd.create = true) (update x.state fun s =>
    if x.cmd.reply then { s with txcmd := x.cmd.noDelete }
    else { s with txcmd := x.cmd.noDelete, icmd := x.cmd.base, isNew := false })

/-- The first of the three ways out returns with the mutex held. -/
def dmsgMsgWrite (env : Env) (m : Nat) : TransM (List Frame) := do
  let x ← getMsg m
  let s0 ← deref x.state
  lock env (.iocom s0.iocom)
  whenT (s0.root = false) (txPrepare m x)
  let s ← deref x.state
  if s.txcmd.delete then do
    dmsgMsgFree env m
    pure []
  else if s.dying then do
    dmsgStateHold x.state
    pure [.cleanuptx s.iocom m, .writeDying x.state, .drop x.state, .msgFree m, .unlock s.iocom]
  else pure [.cleanuptx s.iocom m, .enqueue s.iocom m, .unlock s.iocom]

def dmsgStateCleanuptx (i m : Nat) : TransM (List Frame) := do
  let x ← getMsg m
  let s0 ← deref x.state
  check (s0.iocom = i) .iocomMatch
  dmsgStateHold x.state
  whenT (s0.root = false ∧ x.cmd.delete = true) (txClose x x.state s0)
  let s ← deref x.state
  -- deferred abort after transmission
  if (s.aborting || s.dying) && !s.rxcmd.delete then do
    update x.state fun s => { s with aborting := false }
    pure [.simulate x.state true, .drop x.state]
  else pure [.drop x.state]

/-- The common part of the four reply functions: DMSG_LNK_ERROR on an existing state. -/
def lnkError (env : Env) (a : Addr) (delete reply : Bool) (error : Nat) : TransM (List Frame) := do
  let m ← dmsgMsgAlloc env a [] { base := dmsgLnkError, delete := delete, reply := reply } .unset false
  let s ← deref a
  updMsg m fun x => { x with
    cmd := { x.cmd with create := x.cmd.create || (!s.root && !s.txcmd.create) }, error := error }
  dmsgMsgWrite env m

/-- `dmsg_msg_reply` (`delete`) and `dmsg_msg_result`. -/
def msgAnswer (env : Env) (delete : Bool) (m error : Nat) : TransM (List Frame) := do
  let x ← getMsg m
  let s ← deref x.state
  if s.root then lnkError env x.state false (!x.cmd.reply) error
  else if s.txcmd.delete then pure []
  else lnkError env x.state delete s.txcmd.reply error

def dmsgMsgReply (env : Env) := msgAnswer env true

def dmsgMsgResult (env : Env) := msgAnswer env false

/-- `dmsg_state_reply` (`delete`) and `dmsg_state_result`. -/
def stateAnswer (env : Env) (delete : Bool) (a : Addr) (error : Nat) : TransM (List Frame) := do
  let s ← deref a
  if s.txcmd.delete then pure []
  else lnkError env a delete s.txcmd.reply error

def dmsgStateReply (env : Env) := stateAnswer env true

def dmsgStateResult (env : Env) := stateAnswer env false

/-! ## Relays -/

/-- `dmsg_state_relay`: the message that goes out on the other side. -/
def relayTarget (env : Env) (x : TransMsg) : TransM Nat := do
  let ls ← deref x.state
  if x.cmd.opens then do
    let lp ← nonNull ls.parent .nullDeref
    let lps ← deref lp
    check (ls.relay = none) .relayFresh
    let rp ← nonNull lps.relay (.assert .relayPeer)
    let m ← dmsgMsgAlloc env rp [] x.cmd .relay false
    let y ← getMsg m
    update y.state fun s => { s with relay := some x.state }
    update x.state fun s => { s with relay := some y.state }
    dmsgStateHold x.state
    dmsgStateHold y.state
    pure m
  else do
    let r ← nonNull ls.relay (.assert .relayPeer)
    let rs ← deref r
    check (rs.txcmd.delete = false) .relayOpen
    dmsgMsgAlloc env r [] x.cmd .relay false

def dmsgStateRelay (env : Env) (m : Nat) : TransM (List Frame) := do
  let x ← getMsg m
  let r ← relayTarget env x
  updMsg r fun y => { y with
    error := x.error, reserved02 := x.reserved02, linkVerifier := x.linkVerifier
    ext := x.ext, aux := x.aux }
  updMsg m fun x => { x with aux := [] }
  dmsgMsgWrite env r

/-- The receive callback for `m`, when it is not the user's. -/
def deliver (env : Env) (m : Nat) : TransM (List Frame) := do
  let x ← getMsg m
  let s ← deref x.state
  if s.func = .relay then dmsgStateRelay env m else pure [.callback m]

/-- Where `dist` and `rnss` of `struct dmsg_lnk_span` lie behind the core header. -/
def spanDistOff : Nat := 48

def spanRnssOff : Nat := 52

/-- `*p += n` on the 32-bit word at `off`. -/
def addWord32 (bs : List UInt8) (off n : Nat) : List UInt8 :=
  blit bs off (toLE 4 ((fromLE (slice bs off (off + 4)) + n) % 2 ^ 32))

/-- The SPAN one hop further: its distance grows by one, its sub-sort by our own number. -/
def advanceSpan (rnss : Nat) (ext : List UInt8) : List UInt8 :=
  addWord32 (addWord32 ext spanDistOff 1) spanRnssOff rnss

/-- `dmsg_generate_relay`. The header of the received SPAN is copied over that of the new
    message. -/
def dmsgGenerateRelay (env : Env) (i : Nat) (src : Addr) (span : TransHdr) :
    TransM (List Frame) := do
  holdX src
  let m ← dmsgMsgAlloc env (.root i) [] { base := dmsgLnkSpan, create := true } .user true
  let x ← getMsg m
  holdX x.state
  updMsg m fun x => { x with toTransHdr := { span with ext := advanceSpan env.rnss span.ext } }
  update x.state fun s => { s with relay := some src }
  dmsgStateHold src
  dmsgMsgWrite env m

/-! ## Aborts -/

/-- `dmsg_simulate_failure`. Its `error` argument is only passed down and left out here. -/
def dmsgSimulateFailure (a : Addr) (meto : Bool) : TransM (List Frame) := do
  dmsgStateHold a
  pure ((if meto then [.abort a] else []) ++ [.scanSubq a none, .drop a])

/-- The first of `l` that is not ABORTING. -/
def firstAlive : List Addr → TransM (Option Addr)
  | [] => pure none
  | a :: l => do
    let s ← deref a
    if s.aborting then firstAlive l else pure (some a)

/-- `TAILQ_FOREACH` of `dmsg_simulate_failure`, from the element after `after`. -/
def scanSubq (a : Addr) (after : Option Addr) : TransM (List Frame) := do
  let s ← deref a
  let next ← firstAlive (match after with
    | none => s.subq
    | some c => (s.subq.dropWhile (· ≠ c)).tail)
  match next with
  | none => pure []
  | some sub => do
    update a fun s => { s with scan := some sub }
    pure [.simulate sub true, .scanCheck a sub]

/-- `if (state->scan != substate) goto again;` -/
def scanCheck (a sub : Addr) : TransM (List Frame) := do
  let s ← deref a
  pure [.scanSubq a (if s.scan = some sub then some sub else none)]

def dmsgStateDying (a : Addr) : TransM (List Frame) := do
  let s ← deref a
  if s.dying then pure []
  else do
    update a fun s => { s with dying := true }
    pure (s.subq.map .dying)

def dmsgStateAbort (a : Addr) : TransM (List Frame) := do
  let s ← deref a
  if s.aborting then pure []
  else do
    update a fun s => { s with aborting := true }
    pure [.dying a, .abortSim a]

/-- `dmsg_state_abort` after `dmsg_state_dying`: a DELETE is simulated. The source does not look
    at what `dmsg_state_msgrx` returns. -/
def abortSim (env : Env) (a : Addr) : TransM (List Frame) := do
  let s ← deref a
  if s.isNew || s.rxcmd.delete then pure []
  else do
    let m ← dmsgMsgAllocLocked env a [] { base := dmsgLnkError } .unset false
    updMsg m fun x => { x with
      error := dmsgErrLostlink
      cmd := { x.cmd with
        create := !s.rxcmd.create, delete := true, reply := s.rxcmd.reply, abort := true
        revtrans := !x.cmd.revtrans, revcirc := !x.cmd.revcirc } }
    let _ ← dmsgStateMsgrx env m true
    unlock env (.iocom s.iocom)
    let fs ← deliver env m
    pure (fs ++ [.abortCleanup s.iocom m])

/-! ## The machine -/

/-- `dmsg_iocom_drain`. -/
def iocomDrain (env : Env) (i : Nat) : List Nat → TransM Unit
  | [] => pure ()
  | m :: ms => do
    modifyT fun t => { t with ioqTx := t.ioqTx.erase (i, m) }
    dmsgMsgFree env m
    iocomDrain env i ms

/-- The messages of iocom `i` in a queue. -/
def queued (q : List (Nat × Nat)) (i : Nat) : List Nat := (q.filter (·.1 = i)).map Prod.snd

def execCall (env : Env) : Call → TransM (List Frame)
  | .alloc a aux cmd func data => do
    let _ ← dmsgMsgAlloc env a aux cmd func data
    pure []
  | .fill m error ext aux => do
    updMsg m fun x => { x with error := error, ext := ext, aux := aux }
    pure []
  | .write m => dmsgMsgWrite env m
  | .free m => do
    dmsgMsgFree env m
    pure []
  | .msgReply m error => dmsgMsgReply env m error
  | .msgResult m error => dmsgMsgResult env m error
  | .stateReply a error => dmsgStateReply env a error
  | .stateResult a error => dmsgStateResult env a error
  | .claim a func any => do
    update a fun s => { s with func := func, any := any }
    pure []
  | .hold a => do
    holdX a
    pure []
  | .drop a => do
    dropX a
    pure []
  | .generateRelay i src span => dmsgGenerateRelay env i src span
  | .relayDelete target src => do
    update target fun s => { s with any := false }
    pure [.call (.stateReply target 0), .call (.drop target), .call (.drop src)]

def exec (env : Env) : Frame → TransM (List Frame)
  | .callback _ => throw .stuck
  | .coreCleanup i m => do
    lock env (.iocom i)
    dmsgStateCleanuprx env i m
    unlock env (.iocom i)
    pure []
  | .abortCleanup i m => do
    lock env (.iocom i)
    dmsgStateCleanuprx env i m
    pure []
  | .call c => execCall env c
  | .cleanuptx i m => dmsgStateCleanuptx i m
  | .writeDying a => do
    let s ← deref a
    pure (if s.aborting then [] else [.simulate a true])
  | .enqueue i m => do
    modifyT fun t => { t with txmsgq := t.txmsgq ++ [(i, m)] }
    pure []
  | .msgFree m => do
    dmsgMsgFree env m
    pure []
  | .unlock i => do
    unlock env (.iocom i)
    pure []
  | .simulate a meto => dmsgSimulateFailure a meto
  | .scanSubq a after => scanSubq a after
  | .scanCheck a sub => scanCheck a sub
  | .abort a => dmsgStateAbort a
  | .abortSim a => abortSim env a
  | .dying a => dmsgStateDying a
  | .drop a => do
    dmsgStateDrop a
    pure []

inductive Input where
  | run                                             -- the innermost call goes on
  | ret                                             -- the callback returns
  | call (c : Call)                                 -- a library call, by a callback or a thread
  | connect (i : Nat)                               -- `dmsg_iocom_init`
  | rx (i : Nat) (h : TransHdr) (aux : List UInt8)  -- a message has arrived on iocom `i`
  | linkError (i : Nat)                             -- `dmsg_ioq_read` meets an error
  | flush1 (i : Nat)
  | sent (i m : Nat)                                -- `dmsg_iocom_flush2` has written a message
  | drain (i : Nat)                                 -- `dmsg_iocom_flush2` meets an error
  deriving DecidableEq, Repr

/-- `dmsg_ioq_read` makes a message, bound to `state0` at first, and reads the header into it. -/
def ioqAlloc (env : Env) (i : Nat) (h : TransHdr) (aux : List UInt8) : TransM Nat := do
  let m ← dmsgMsgAlloc env (.root i) aux { base := h.cmd.base % 256 } .unset false
  updMsg m fun x => { x with toTransHdr := h }
  pure m

/-- `dmsg_ioq_read` on one message: it is thrown away if `dmsg_state_msgrx` says so. -/
def ioqRead (env : Env) (i : Nat) (h : TransHdr) (aux : List UInt8) : TransM (Option Nat) := do
  let m ← ioqAlloc env i h aux
  let e ← dmsgStateMsgrx env m false
  match e with
  | .ealready => do
    dmsgMsgFree env m
    pure none
  | .ok => pure (some m)

/-- `dmsg_iocom_core` on one message. -/
def rxMsg (env : Env) (i : Nat) (h : TransHdr) (aux : List UInt8) : TransM (List Frame) := do
  let r ← ioqRead env i h aux
  match r with
  | none => pure []
  | some m => do
    let fs ← deliver env m
    pure (fs ++ [.coreCleanup i m])

/-- The calls that an input starts. -/
def enter (env : Env) : Input → TransM (List Frame)
  | .run | .ret => throw .stuck
  | .call c => pure [.call c]
  | .connect i => fun t =>
    if t.heap.get (.root i) = none then
      .ok ([], { t with heap := t.heap.insert (.root i) (state0 i) })
    else .error .stuck
  | .rx i h aux => rxMsg env i h aux
  | .linkError i => do
    lock env (.iocom i)
    let t ← get
    iocomDrain env i (queued t.ioqTx i)
    pure [.simulate (.root i) false, .unlock i]
  | .flush1 i => do
    lock env (.iocom i)
    modifyT fun t => { t with
      txmsgq := t.txmsgq.filter (·.1 ≠ i), ioqTx := t.ioqTx ++ t.txmsgq.filter (·.1 = i) }
    unlock env (.iocom i)
    pure []
  | .sent i m => do
    let t ← get
    if (queued t.ioqTx i).head? = some m then do
      modifyT fun t => { t with ioqTx := t.ioqTx.erase (i, m) }
      dmsgMsgFree env m
      pure []
    else throw .stuck
  | .drain i => do
    let t ← get
    iocomDrain env i (queued t.ioqTx i)
    pure []

structure Machine where
  t : Trans
  stack : List Frame

def Machine.init : Machine := ⟨.init, []⟩

/-- The machine takes inputs from outside when no call of the library is running. -/
def idle : List Frame → Bool
  | [] => true
  | .callback _ :: _ => true
  | _ => false

def Machine.push (fs : List Frame) : Except Fault (List Frame × Trans) → Except Fault Machine
  | .ok (new, t) => .ok ⟨t, new ++ fs⟩
  | .error e => .error e

def step (env : Env) (M : Machine) : Input → Except Fault Machine
  | .run =>
    match M.stack with
    | [] => .error .stuck
    | f :: fs => Machine.push fs (exec env f M.t)
  | .ret =>
    match M.stack with
    | .callback _ :: fs => .ok ⟨M.t, fs⟩
    | _ => .error .stuck
  | inp => if idle M.stack then Machine.push M.stack (enter env inp M.t) else .error .stuck

/-! ## Small runs -/

/-- Mutexes that do nothing, and a `malloc` that takes the address after the highest in use. -/
def Env.bump : Env where
  lk := false
  mallocState t := (t.heap.entries.map fun en =>
    match en.1 with
    | .root _ => 0
    | .dyn n => n).foldl max 0 + 1
  mallocMsg t := (t.msgs.entries.map Prod.fst).foldl max 0 + 1

/-- A callback makes one call, whose message is queued, and returns. -/
def answer (c : Call) : List Input := [.call c, .run, .run, .run, .run, .run, .ret, .run]

/-- Transaction 1 is opened here on a new iocom, and the message is sent. -/
def opensHere : List Input :=
  [.connect 0, .call (.alloc (.root 0) [] { create := true, base := 1 } .user false), .run,
    .call (.write 1), .run, .run, .run, .run, .run, .flush1 0, .sent 0 1]

/-- A message of one header unit arrives on iocom 0. -/
def arrives (cmd : Cmd) (msgid circuit : Nat) : Input :=
  .rx 0 { cmd := { cmd with base := 1 }, msgid := msgid, circuit := circuit } []

end Lh1.Dmsg
