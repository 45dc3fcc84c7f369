/-
  The transaction layer of libdmsg (lib/libdmsg/msg.c): messages, transaction states, their
  reference counts, the two RB trees and the queues of sub-transactions.

  Functions of the source are computations over `Trans`, the transaction data of the whole
  process, that stop at a `Fault`: a failed assertion, a use of freed memory, a mutex locked
  by the thread that holds it. With `Env.lk = false` the mutexes do nothing. This module has
  the functions that run to their end without a receive callback: allocation, the closing of
  transactions and `dmsg_state_msgrx`.

  `Trans.holds` and `Trans.lost` are history variables, on which no function depends:
    holds   the references taken by link structures (`h2span_conn`, `h2span_link`,
            `h2span_relay`), which drop them again;
    lost    the references that `dmsg_state_msgrx` takes and nothing drops.
-/
import Lh1.Lib.Run
import Lh1.Lib.Store
import Lh1.Lib.Fallible

namespace Lh1.Dmsg

open Lh1.Lib

/-! ## States and messages -/

/-- `head.cmd`: its flags, and the rest (`DMSGF_BASECMDMASK`), whose low byte is the size. The
    two flags that nothing sets or tests, FLAG0 and FLAG1, count as part of the rest. -/
structure Cmd where
  create : Bool := false
  delete : Bool := false
  reply : Bool := false
  abort : Bool := false
  revtrans : Bool := false
  revcirc : Bool := false
  base : Nat := 0
  deriving DecidableEq, Repr

/-- `DMSG_LNK_ERROR`. -/
def dmsgLnkError : Nat := 0xFFF01

/-- `DMSG_LNK_SPAN`. -/
def dmsgLnkSpan : Nat := 0x01207

/-- `DMSG_ERR_LOSTLINK`. -/
def dmsgErrLostlink : Nat := 0x21

/-- `cmd & ~DMSGF_DELETE`. -/
def Cmd.noDelete (c : Cmd) : Cmd := { c with delete := false }

/-- CREATE without REPLY: the command opens a transaction. -/
def Cmd.opens (c : Cmd) : Bool := c.create && !c.reply

/-- Where a state lives: `state0` in its iocom, any other state where `malloc` put it. -/
inductive Addr where
  | root (iocom : Nat)
  | dyn (p : Nat)
  deriving DecidableEq, Repr

/-- `state->func`: NULL, `dmsg_state_relay` or some other handler. -/
inductive RxFunc where
  | unset
  | relay
  | user
  deriving DecidableEq, Repr

/-- `struct dmsg_state`. `any` says whether `state->any` is non-NULL. -/
structure DmsgState where
  iocom : Nat
  parent : Option Addr
  subq : List Addr := []
  scan : Option Addr := none
  relay : Option Addr := none
  msgid : Nat
  rxcmd : Cmd := {}
  txcmd : Cmd := {}
  icmd : Nat := 0
  func : RxFunc := .unset
  any : Bool := false
  refs : Nat
  root : Bool := false
  opposite : Bool := false
  subinserted : Bool := false
  rbinserted : Bool := false
  dying : Bool := false
  aborting : Bool := false
  isNew : Bool := false
  deriving DecidableEq, Repr

/-- `iocom->state0`. -/
def state0 (i : Nat) : DmsgState :=
  { iocom := i, parent := some (.root i), msgid := 0, root := true, refs := 1 }

/-- A transaction that is closed in both directions. -/
def DmsgState.closed (s : DmsgState) : Bool := s.rxcmd.delete && s.txcmd.delete

/-- The header fields that are left as the transaction layer sets them, and the extended header.
    `dmsg_iocom_flush1` fills in the others when the message is sent. -/
structure TransHdr where
  cmd : Cmd
  msgid : Nat
  circuit : Nat
  error : Nat := 0
  reserved02 : Nat := 0
  linkVerifier : Nat := 0
  auxCrc : Nat := 0
  auxDescr : Nat := 0
  reserved38 : Nat := 0
  ext : List UInt8 := []
  deriving DecidableEq, Repr

/-- `state->rxcmd |= DMSGF_DELETE` -/
def DmsgState.rxDeleted (s : DmsgState) : DmsgState :=
  { s with rxcmd := { s.rxcmd with delete := true } }

/-- `state->txcmd |= DMSGF_DELETE` -/
def DmsgState.txDeleted (s : DmsgState) : DmsgState :=
  { s with txcmd := { s.txcmd with delete := true } }

/-- `struct dmsg_msg`. -/
structure TransMsg extends TransHdr where
  state : Addr
  aux : List UInt8 := []
  tcmd : Cmd := {}
  deriving DecidableEq, Repr

inductive Mutex where
  | iocom (i : Nat)
  | cluster
  deriving DecidableEq, Repr

/-- An RB tree of states, for all iocoms: keyed by iocom and msgid. -/
abbrev StateTree := List ((Nat × Nat) × Addr)

structure Trans where
  heap : Store Addr DmsgState
  msgs : Store Nat TransMsg
  staterd : StateTree := []
  statewr : StateTree := []
  /-- `iocom->txmsgq` and `ioq_tx.msgq`: pairs of an iocom and a message. -/
  txmsgq : List (Nat × Nat) := []
  ioqTx : List (Nat × Nat) := []
  held : List Mutex := []
  holds : List Addr := []
  lost : List Addr := []

def Trans.init : Trans := { heap := .empty, msgs := .empty }

/-- The assertions of the transaction layer. -/
inductive TransAssert where
  | allocSize     -- alloc: hbytes >= sizeof(struct dmsg_hdr)
  | dropRefs      -- drop: refs > 0
  | freeFlags     -- free: not ROOT, SUBINSERTED or RBINSERTED
  | freeSubq      -- free: TAILQ_EMPTY(&state->subq)
  | freeAny       -- free: any.any == NULL
  | subqParent    -- subq_delete: pstate, or parent == NULL
  | rxParent      -- msgrx: pstate == state->parent
  | rxCreate      -- msgrx: duplicate transaction
  | rxDelete      -- msgrx: missing-state, reused-state
  | rxReply       -- msgrx: no-state(r), REPLY bit
  | rxState       -- msgrx: msg->state == state
  | rxDeleted     -- msgrx: rxcmd has no DELETE
  | rbInserted    -- msgrx, cleanuptx: RBINSERTED
  | rbReply       -- msgrx, cleanuptx: REPLY bit
  | iocomMatch    -- msgrx, cleanuprx, cleanuptx: state->iocom == iocom
  | relayFresh    -- relay: lstate->relay == NULL
  | relayPeer     -- relay: rpstate, rstate != NULL
  | relayOpen     -- relay: rstate not DELETEd
  deriving DecidableEq, Repr

inductive Fault where
  | assert (a : TransAssert)
  | useAfterFree      -- a state that was freed
  | badMsg            -- a message that was freed
  | nullDeref
  | corrupt           -- RB_REMOVE of a state that is not in the tree
  | badMalloc         -- malloc returned an address in use
  | badCall           -- a drop of a reference that the caller does not hold
  | deadlock (m : Mutex)
  | notHeld (m : Mutex)
  | stuck             -- not an input the machine takes now
  deriving DecidableEq, Repr

abbrev TransM := StateT Trans (Except Fault)

/-- `malloc`, whether mutexes are real, and what `dmsg_rnss` returns. -/
structure Env where
  lk : Bool
  mallocState : Trans → Nat
  mallocMsg : Trans → Nat
  rnss : Nat := 1

/-! ## Primitive operations -/

def check (c : Prop) [Decidable c] (a : TransAssert) : TransM Unit :=
  if c then pure () else throw (.assert a)

def whenT (c : Prop) [Decidable c] (x : TransM Unit) : TransM Unit := if c then x else pure ()

def nonNull (p : Option Addr) (f : Fault) : TransM Addr :=
  match p with
  | some a => pure a
  | none => throw f

/-- `pthread_mutex_lock` on a mutex with default attributes. -/
def lock (env : Env) (m : Mutex) : TransM Unit := fun t =>
  if env.lk then
    if m ∈ t.held then .error (.deadlock m) else .ok ((), { t with held := m :: t.held })
  else .ok ((), t)

def unlock (env : Env) (m : Mutex) : TransM Unit := fun t =>
  if env.lk then
    if m ∈ t.held then .ok ((), { t with held := t.held.erase m }) else .error (.notHeld m)
  else .ok ((), t)

def deref (a : Addr) : TransM DmsgState := fun t =>
  match t.heap.get a with
  | some s => .ok (s, t)
  | none => .error .useAfterFree

def update (a : Addr) (f : DmsgState → DmsgState) : TransM Unit := fun t =>
  match t.heap.get a with
  | some _ => .ok ((), { t with heap := t.heap.modify a f })
  | none => .error .useAfterFree

def getMsg (m : Nat) : TransM TransMsg := fun t =>
  match t.msgs.get m with
  | some x => .ok (x, t)
  | none => .error .badMsg

def updMsg (m : Nat) (f : TransMsg → TransMsg) : TransM Unit := fun t =>
  match t.msgs.get m with
  | some _ => .ok ((), { t with msgs := t.msgs.modify m f })
  | none => .error .badMsg

def modifyT (f : Trans → Trans) : TransM Unit := fun t => .ok ((), f t)

def newState (env : Env) : TransM Nat := fun t =>
  match t.heap.get (.dyn (env.mallocState t)) with
  | none => .ok (env.mallocState t, t)
  | some _ => .error .badMalloc

def newMsg (env : Env) (x : TransMsg) : TransM Nat := fun t =>
  match t.msgs.get (env.mallocMsg t) with
  | none => .ok (env.mallocMsg t, { t with msgs := t.msgs.insert (env.mallocMsg t) x })
  | some _ => .error .badMalloc

/-! What is known when a primitive operation does not fail. -/

section Inversion

variable {a : Addr} {m : Nat} {s : DmsgState} {x : TransMsg} {t t' : Trans} {u : Unit}

@[simp] theorem check_ok {c : Prop} [Decidable c] {as : TransAssert} :
    check c as t = .ok (u, t') ↔ c ∧ t' = t := by
  unfold check
  split
  · rw [pure_ok_iff]
    tauto
  · simp only [*, false_and, iff_false]
    intro h
    cases h

theorem whenT_ok {c : Prop} [Decidable c] {y : TransM Unit} :
    whenT c y t = .ok (u, t') ↔ (c ∧ y t = .ok (u, t')) ∨ (¬ c ∧ t' = t) := by
  unfold whenT
  split
  · simp [*]
  · rw [pure_ok_iff]
    simp [*]

@[simp] theorem nonNull_ok {p : Option Addr} {f : Fault} :
    nonNull p f t = .ok (a, t') ↔ p = some a ∧ t' = t := by
  cases p with
  | none =>
    simp only [nonNull, reduceCtorEq, false_and, iff_false]
    intro h
    cases h
  | some b =>
    rw [nonNull, pure_ok_iff, Option.some.injEq]
    tauto

@[simp] theorem deref_ok : deref a t = .ok (s, t') ↔ t.heap.get a = some s ∧ t' = t := by
  unfold deref
  cases t.heap.get a with
  | none => simp
  | some v => simp [eq_comm]

@[simp] theorem update_ok {f : DmsgState → DmsgState} : update a f t = .ok (u, t') ↔
    (∃ s, t.heap.get a = some s) ∧ t' = { t with heap := t.heap.modify a f } := by
  unfold update
  cases t.heap.get a with
  | none => simp
  | some v => simp [eq_comm]

@[simp] theorem getMsg_ok : getMsg m t = .ok (x, t') ↔ t.msgs.get m = some x ∧ t' = t := by
  unfold getMsg
  cases t.msgs.get m with
  | none => simp
  | some v => simp [eq_comm]

@[simp] theorem updMsg_ok {f : TransMsg → TransMsg} : updMsg m f t = .ok (u, t') ↔
    (∃ x, t.msgs.get m = some x) ∧ t' = { t with msgs := t.msgs.modify m f } := by
  unfold updMsg
  cases t.msgs.get m with
  | none => simp
  | some v => simp [eq_comm]

@[simp] theorem modifyT_ok {f : Trans → Trans} : modifyT f t = .ok (u, t') ↔ t' = f t := by
  simp [modifyT, eq_comm]

@[simp] theorem newState_ok {env : Env} {n : Nat} : newState env t = .ok (n, t') ↔
    n = env.mallocState t ∧ t.heap.get (.dyn n) = none ∧ t' = t := by
  unfold newState
  cases h : t.heap.get (.dyn (env.mallocState t)) with
  | none =>
    constructor
    · intro heq
      cases heq
      exact ⟨rfl, h, rfl⟩
    · rintro ⟨rfl, -, rfl⟩
      rfl
  | some v =>
    simp only [reduceCtorEq, false_iff, not_and]
    rintro rfl
    simp [h]

@[simp] theorem newMsg_ok {env : Env} : newMsg env x t = .ok (m, t') ↔
    m = env.mallocMsg t ∧ t.msgs.get m = none ∧ t' = { t with msgs := t.msgs.insert m x } := by
  unfold newMsg
  cases h : t.msgs.get (env.mallocMsg t) with
  | none =>
    constructor
    · intro heq
      cases heq
      exact ⟨rfl, h, rfl⟩
    · rintro ⟨rfl, -, rfl⟩
      rfl
  | some v =>
    simp only [reduceCtorEq, false_iff, not_and]
    rintro rfl
    simp [h]

/-- Locking changes nothing but the set of mutexes held. -/
theorem lock_ok {env : Env} {mx : Mutex} (h : lock env mx t = .ok (u, t')) :
    t' = { t with held := t'.held } := by
  unfold lock at h
  split at h
  · split at h
    · cases h
    · cases h
      rfl
  · cases h
    rfl

theorem unlock_ok {env : Env} {mx : Mutex} (h : unlock env mx t = .ok (u, t')) :
    t' = { t with held := t'.held } := by
  unfold unlock at h
  split at h
  · split at h
    · cases h
      rfl
    · cases h
  · cases h
    rfl

end Inversion

/-! The operations that can fail an assertion are `check` and what is made of it. -/

section Asserts

variable {a : Addr} {m : Nat} {t : Trans} {env : Env}

def Fault.IsAssert (f : Fault) : Prop := ∃ as, f = .assert as

@[simp] theorem avoids_check {c : Prop} [Decidable c] {as : TransAssert} :
    Avoids Fault.IsAssert (check c as) t ↔ c := by
  unfold check
  split
  · simp [*, avoids_pure]
  · simp only [*, iff_false]
    exact fun h => h _ rfl ⟨as, rfl⟩

@[simp] theorem avoids_whenT {c : Prop} [Decidable c] {y : TransM Unit} :
    Avoids Fault.IsAssert (whenT c y) t ↔ (c → Avoids Fault.IsAssert y t) := by
  unfold whenT
  split
  · simp [*]
  · simp [*, avoids_pure]

@[simp] theorem avoids_unlock {mx : Mutex} : Avoids Fault.IsAssert (unlock env mx) t := by
  rintro err h ⟨as, rfl⟩
  unfold unlock at h
  split at h
  · split at h <;> cases h
  · cases h

@[simp] theorem avoids_deref : Avoids Fault.IsAssert (deref a) t := by
  rintro err h ⟨as, rfl⟩
  unfold deref at h
  split at h <;> cases h

@[simp] theorem avoids_update {f : DmsgState → DmsgState} :
    Avoids Fault.IsAssert (update a f) t := by
  rintro err h ⟨as, rfl⟩
  unfold update at h
  split at h <;> cases h

@[simp] theorem avoids_getMsg : Avoids Fault.IsAssert (getMsg m) t := by
  rintro err h ⟨as, rfl⟩
  unfold getMsg at h
  split at h <;> cases h

@[simp] theorem avoids_updMsg {f : TransMsg → TransMsg} :
    Avoids Fault.IsAssert (updMsg m f) t := by
  rintro err h ⟨as, rfl⟩
  unfold updMsg at h
  split at h <;> cases h

@[simp] theorem avoids_modifyT {f : Trans → Trans} : Avoids Fault.IsAssert (modifyT f) t :=
  avoids_of_ok rfl

@[simp] theorem avoids_newState : Avoids Fault.IsAssert (newState env) t := by
  rintro err h ⟨as, rfl⟩
  unfold newState at h
  split at h <;> cases h

end Asserts

/-! ## RB trees -/

def rbFind (tree : StateTree) (iocom msgid : Nat) : Option Addr :=
  (tree.find? fun e => e.1 = (iocom, msgid)).map Prod.snd

/-- `RB_INSERT`, which leaves the tree alone when the key is taken. -/
def rbInsert (tree : StateTree) (iocom msgid : Nat) (a : Addr) : StateTree :=
  if rbFind tree iocom msgid = none then ((iocom, msgid), a) :: tree else tree

def rbErase (tree : StateTree) (a : Addr) : StateTree := tree.filter fun e => e.2 ≠ a

/-- `RB_REMOVE` from `statewr_tree` (`wr`) or `staterd_tree`. -/
def rbRemove (wr : Bool) (a : Addr) : TransM Unit := fun t =>
  if wr then
    if a ∈ t.statewr.map Prod.snd then .ok ((), { t with statewr := rbErase t.statewr a })
    else .error .corrupt
  else
    if a ∈ t.staterd.map Prod.snd then .ok ((), { t with staterd := rbErase t.staterd a })
    else .error .corrupt

/-! ## References -/

def dmsgStateHold (a : Addr) : TransM Unit := update a fun s => { s with refs := s.refs + 1 }

def dmsgStateFree (a : Addr) : TransM Unit := do
  let s ← deref a
  check (s.root = false ∧ s.subinserted = false ∧ s.rbinserted = false) .freeFlags
  check (s.subq = []) .freeSubq
  check (s.any = false) .freeAny
  modifyT fun t => { t with heap := t.heap.erase a }

def dmsgStateDrop (a : Addr) : TransM Unit := do
  let s ← deref a
  check (0 < s.refs) .dropRefs
  update a fun s => { s with refs := s.refs - 1 }
  whenT (s.refs = 1) (dmsgStateFree a)

/-- A hold by a link structure. -/
def holdX (a : Addr) : TransM Unit := do
  dmsgStateHold a
  modifyT fun t => { t with holds := a :: t.holds }

/-- A link structure drops its hold. -/
def dropX (a : Addr) : TransM Unit := do
  (fun t => if a ∈ t.holds then .ok ((), { t with holds := t.holds.erase a })
    else .error .badCall : TransM Unit)
  dmsgStateDrop a

/-! ## Messages -/

/-- `a` becomes the last sub-transaction of `p`, which is held while it has any. -/
def subqInsert (p a : Addr) : TransM Unit :=
  update p fun s =>
    { s with subq := s.subq ++ [a], refs := if s.subq = [] then s.refs + 1 else s.refs }

/-- The state of a transaction that is opened here under `p`. It is held by the subq of `p`,
    by the tree and by the message. -/
def localState (p : Addr) (ps : DmsgState) (n : Nat) (cmd : Cmd) (func : RxFunc) (data : Bool) :
    DmsgState :=
  { iocom := ps.iocom, parent := some p, msgid := n, func := func, any := data,
    txcmd := { cmd with create := false, delete := false }, rxcmd := { reply := true },
    icmd := cmd.base, dying := ps.dying, subinserted := true, rbinserted := true, refs := 3 }

def openLocal (env : Env) (p : Addr) (ps : DmsgState) (cmd : Cmd) (func : RxFunc) (data : Bool) :
    TransM Addr := do
  let n ← newState env
  modifyT fun t => { t with
    heap := t.heap.insert (.dyn n) (localState p ps n cmd func data)
    statewr := rbInsert t.statewr ps.iocom n (.dyn n) }
  subqInsert p (.dyn n)
  pure (.dyn n)

/-- The state that a new message is bound to, and its parent. -/
def allocState (env : Env) (a : Addr) (cmd : Cmd) (func : RxFunc) (data : Bool) :
    TransM (Addr × Addr) := do
  let s ← deref a
  if cmd.opens then do
    let c ← openLocal env a s cmd func data
    pure (c, a)
  else do
    dmsgStateHold a
    let p ← nonNull s.parent .nullDeref
    pure (a, p)

/-- `aux` is what the caller puts into the aux buffer it asks for. -/
def dmsgMsgAllocLocked (env : Env) (a : Addr) (aux : List UInt8) (cmd : Cmd) (func : RxFunc)
    (data : Bool) : TransM Nat := do
  let (st, p) ← allocState env a cmd func data
  check (1 ≤ cmd.base % 256) .allocSize
  let s ← deref st
  let ps ← deref p
  newMsg env
    { state := st, msgid := s.msgid, circuit := ps.msgid, aux := aux
      ext := List.replicate (64 * (cmd.base % 256) - 64) 0
      cmd := { cmd with
        revtrans := cmd.revtrans || s.opposite, revcirc := cmd.revcirc || ps.opposite } }

def dmsgMsgAlloc (env : Env) (a : Addr) (aux : List UInt8) (cmd : Cmd) (func : RxFunc)
    (data : Bool) : TransM Nat := do
  let s ← deref a
  lock env (.iocom s.iocom)
  let m ← dmsgMsgAllocLocked env a aux cmd func data
  unlock env (.iocom s.iocom)
  pure m

def dmsgMsgFreeLocked (m : Nat) : TransM Unit := do
  let x ← getMsg m
  dmsgStateDrop x.state
  modifyT fun t => { t with msgs := t.msgs.erase m }

def dmsgMsgFree (env : Env) (m : Nat) : TransM Unit := do
  let x ← getMsg m
  let s ← deref x.state
  lock env (.iocom s.iocom)
  dmsgMsgFreeLocked m
  unlock env (.iocom s.iocom)

/-! ## Closing -/

def dmsgSubqDelete (a : Addr) : TransM Unit := do
  let s ← deref a
  if s.subinserted then do
    let p ← nonNull s.parent (.assert .subqParent)
    update p fun ps => { ps with
      scan := if ps.scan = some a then none else ps.scan
      subq := ps.subq.erase a }
    update a fun s => { s with subinserted := false, parent := none }
    let ps ← deref p
    whenT (ps.subq = []) (dmsgStateDrop p)
    dmsgStateDrop a
  else check (s.parent = none) .subqParent

/-- `if (state->relay) { dmsg_state_drop(state->relay); state->relay = NULL; }` -/
def dropRelay (a : Addr) : TransM Unit := do
  let s ← deref a
  match s.relay with
  | none => pure ()
  | some r => do
    dmsgStateDrop r
    update a fun s => { s with relay := none }

def dmsgStateCleanuprx (env : Env) (i m : Nat) : TransM Unit := do
  let x ← getMsg m
  let s ← deref x.state
  check (s.iocom = i) .iocomMatch
  whenT (s.root = false ∧ s.subinserted = true ∧ s.closed = true) (do
    dmsgSubqDelete x.state
    dropRelay x.state)
  dmsgMsgFree env m

/-- The state is taken out of its tree: `statewr_tree` if it was opened here. -/
def rbUnlink (wr cmdReply stateReply : Bool) (a : Addr) (s : DmsgState) : TransM Unit := do
  check (s.rbinserted = true) .rbInserted
  check (cmdReply = stateReply) .rbReply
  rbRemove wr a
  update a fun s => { s with rbinserted := false }

/-- `dmsg_state_cleanuptx`, for a message with DELETE. -/
def txClose (x : TransMsg) (a : Addr) (s : DmsgState) : TransM Unit :=
  if s.txcmd.delete then pure ()
  else do
    update a DmsgState.txDeleted
    whenT (s.rxcmd.delete = true) (do
      rbUnlink (!s.txcmd.reply) x.cmd.reply s.txcmd.reply a s
      dmsgSubqDelete a
      dropRelay a
      dmsgStateDrop a)

/-! ## Received messages -/

/-- What `dmsg_state_msgrx` returns: 0 or `DMSG_IOQ_ERROR_EALREADY`. Before it would return
    `DMSG_IOQ_ERROR_TRANS` it stops at an `assert(0)`. -/
inductive RxResult where
  | ok
  | ealready
  deriving DecidableEq, Repr

/-- `RB_FIND` for a received message: a REV bit says that the transaction was opened here. -/
def rxFind (t : Trans) (i : Nat) (rev : Bool) (msgid : Nat) : Option Addr :=
  rbFind (if rev then t.statewr else t.staterd) i msgid

/-- The circuit of a received message. -/
def rxCircuit (t : Trans) (i : Nat) (h : TransHdr) : Option Addr :=
  if h.circuit = 0 then some (.root i) else rxFind t i h.cmd.revcirc h.circuit

/-- The transaction of a received message. -/
def rxState (t : Trans) (i : Nat) (h : TransHdr) : Option Addr :=
  rxFind t i h.cmd.revtrans h.msgid

/-- The message is bound to the transaction it belongs to. If there is none, `state` is the
    circuit, but `msg->state` stays what it was. -/
def rxBind (m : Nat) (x : TransMsg) (p : Addr) (found : Option Addr) : TransM Addr :=
  match found with
  | none => pure p
  | some a => do
    dmsgStateDrop x.state
    dmsgStateHold a
    updMsg m fun x => { x with state := a }
    let s ← deref a
    check (s.parent = some p) .rxParent
    pure a

/-- The state of a transaction that the peer opens under `p`, held like one opened here. -/
def peerState (i : Nat) (p : Addr) (ps : DmsgState) (x : TransMsg) : DmsgState :=
  { iocom := i, parent := some p, msgid := x.msgid, opposite := true,
    func := if ps.relay = none then .unset else .relay,
    txcmd := { reply := true }, rxcmd := x.cmd.noDelete, icmd := x.cmd.base,
    subinserted := true, rbinserted := true, refs := 3 }

/-- The references that are lost with a new state `n` under the circuit `p`. It is held once more
    than its subq needs, the message forgets `b`, and a tree that has the msgid takes no other. -/
def Trans.forgets (t : Trans) (n i msgid : Nat) (p b : Addr) : List Addr :=
  (if rbFind t.staterd i msgid = none then [] else [.dyn n]) ++ [p, b]

/-- CREATE: a new transaction under the circuit `p`. -/
def rxOpen (env : Env) (i m : Nat) (x : TransMsg) (p : Addr) : TransM Addr := do
  let ps ← deref p
  let n ← newState env
  let y ← getMsg m
  modifyT fun t => { t with
    heap := t.heap.insert (.dyn n) (peerState i p ps x)
    staterd := rbInsert t.staterd i x.msgid (.dyn n)
    lost := t.forgets n i x.msgid p y.state ++ t.lost }
  dmsgStateHold p
  subqInsert p (.dyn n)
  updMsg m fun x => { x with state := .dyn n }
  pure (.dyn n)

/-- DELETE, with or without REPLY: only an ABORT may meet no transaction or a new one. -/
def rxDelete (x : TransMsg) (p : Option Addr) (a : Addr) : TransM RxResult := do
  let s ← deref a
  if p = some a ∨ s.rxcmd.create = false then do
    check (x.cmd.abort = true) .rxDelete
    pure .ealready
  else pure .ok

/-- CREATE and REPLY. -/
def rxReply (x : TransMsg) (p : Option Addr) (a : Addr) : TransM Unit := do
  check (p ≠ some a) .rxReply
  let s ← deref a
  check (s.rxcmd.reply = x.cmd.reply) .rxReply
  update a fun s => { s with rxcmd := x.cmd.noDelete }

/-- Neither CREATE nor DELETE, with or without REPLY. -/
def rxStream (x : TransMsg) (p : Option Addr) (a : Addr) : TransM RxResult := do
  let s ← deref a
  if x.cmd.abort = true ∧ (p = some a ∨ s.rxcmd.create = false) then pure .ealready
  else pure .ok

/-- The switch on CREATE, DELETE and REPLY. It gives the state and the error. -/
def rxSwitch (env : Env) (i m : Nat) (x : TransMsg) (p : Option Addr) (a : Addr) :
    TransM (Addr × RxResult) :=
  match x.cmd.create, x.cmd.delete, x.cmd.reply with
  | true, _, false => do
    check (p = some a) .rxCreate
    let c ← rxOpen env i m x a
    pure (c, .ok)
  | true, _, true => do
    rxReply x p a
    pure (a, .ok)
  | false, true, _ => do
    let e ← rxDelete x p a
    pure (a, e)
  | false, false, _ => do
    let e ← rxStream x p a
    pure (a, e)

/-- `msg->tcmd`. -/
def rxTcmd (m : Nat) (x : TransMsg) (a : Addr) : TransM Unit := do
  let y ← getMsg m
  let ys ← deref y.state
  let s ← deref a
  updMsg m fun y => { y with tcmd :=
    if x.cmd.create || x.cmd.delete then
      if ys.root then {}
      else { base := s.icmd, create := x.cmd.create, delete := x.cmd.delete, reply := x.cmd.reply }
    else { base := x.cmd.base, reply := x.cmd.reply } }

/-- A DELETE is received: the state leaves its tree if it is closed both ways now. -/
def rxClose (x : TransMsg) (a : Addr) (s : DmsgState) : TransM Unit := do
  check (s.rxcmd.delete = false) .rxDeleted
  update a DmsgState.rxDeleted
  whenT (s.txcmd.delete = true) (do
    rbUnlink s.rxcmd.reply x.cmd.reply s.rxcmd.reply a s
    dmsgStateDrop a)

/-- The bookkeeping after the switch, which does not ask what the error is. -/
def rxCommit (i m : Nat) (x : TransMsg) (a : Addr) : TransM Unit := do
  let y ← getMsg m
  let ys ← deref y.state
  check (ys.iocom = i) .iocomMatch
  check (y.state = a) .rxState
  whenT (ys.root = false ∧ x.cmd.delete = true) (rxClose x a ys)

/-- `dmsg_state_msgrx` after the lookup of the circuit. -/
def rxMatched (env : Env) (i m : Nat) (x : TransMsg) (p : Option Addr) (a : Addr) :
    TransM RxResult := do
  let (c, e) ← rxSwitch env i m x p a
  rxTcmd m x c
  rxCommit i m x c
  pure e

/-- `dmsg_state_msgrx` under the mutex. `mstate` says that the message was made by
    `dmsg_state_abort` for the state it is bound to. -/
def rxLocked (env : Env) (m : Nat) (x : TransMsg) (s : DmsgState) (mstate : Bool) :
    TransM RxResult := fun t =>
  if mstate then rxMatched env s.iocom m x s.parent x.state t
  else
    match rxCircuit t s.iocom x.toTransHdr with
    | none => .ok (.ealready, t)
    | some p => (do
        let a ← rxBind m x p (rxState t s.iocom x.toTransHdr)
        rxMatched env s.iocom m x (some p) a : TransM RxResult) t

def dmsgStateMsgrx (env : Env) (m : Nat) (mstate : Bool) : TransM RxResult := do
  let x ← getMsg m
  let s ← deref x.state
  lock env (.iocom s.iocom)
  let e ← rxLocked env m x s mstate
  unlock env (.iocom s.iocom)
  pure e

/-! What the switch has done when it does not fail. -/

section Inversion

variable {env : Env} {i m : Nat} {x : TransMsg} {p : Option Addr} {a : Addr} {t t' : Trans}
  {e : RxResult}

theorem rxDelete_ok : rxDelete x p a t = .ok (e, t') ↔ t' = t ∧ ∃ s, t.heap.get a = some s ∧
    (((p = some a ∨ s.rxcmd.create = false) ∧ x.cmd.abort = true ∧ e = .ealready) ∨
      (¬ (p = some a ∨ s.rxcmd.create = false) ∧ e = .ok)) := by
  simp only [rxDelete, bind_ok_iff, deref_ok]
  constructor
  · rintro ⟨s, t, ⟨hs, rfl⟩, h⟩
    split at h
    · simp only [bind_ok_iff, check_ok, pure_ok_iff] at h
      obtain ⟨_, t, ⟨hab, rfl⟩, rfl, rfl⟩ := h
      exact ⟨rfl, s, hs, Or.inl ⟨‹_›, hab, rfl⟩⟩
    · obtain ⟨rfl, rfl⟩ := pure_ok_iff.mp h
      exact ⟨rfl, s, hs, Or.inr ⟨‹_›, rfl⟩⟩
  · rintro ⟨rfl, s, hs, ⟨hc, hab, rfl⟩ | ⟨hc, rfl⟩⟩
    · refine ⟨s, t', ⟨hs, rfl⟩, ?_⟩
      rw [if_pos hc]
      simp only [bind_ok_iff, check_ok, pure_ok_iff]
      exact ⟨(), t', ⟨hab, rfl⟩, trivial, rfl⟩
    · refine ⟨s, t', ⟨hs, rfl⟩, ?_⟩
      rw [if_neg hc]
      rfl

theorem rxStream_ok : rxStream x p a t = .ok (e, t') ↔ t' = t ∧ ∃ s, t.heap.get a = some s ∧
    e = if x.cmd.abort = true ∧ (p = some a ∨ s.rxcmd.create = false) then .ealready else .ok := by
  simp only [rxStream, bind_ok_iff, deref_ok]
  constructor
  · rintro ⟨s, t, ⟨hs, rfl⟩, h⟩
    split at h
    · obtain ⟨rfl, rfl⟩ := pure_ok_iff.mp h
      exact ⟨rfl, s, hs, by rw [if_pos ‹_›]⟩
    · obtain ⟨rfl, rfl⟩ := pure_ok_iff.mp h
      exact ⟨rfl, s, hs, by rw [if_neg ‹_›]⟩
  · rintro ⟨rfl, s, hs, rfl⟩
    refine ⟨s, t', ⟨hs, rfl⟩, ?_⟩
    split <;> rfl

theorem rxReply_ok {u : Unit} (h : rxReply x p a t = .ok (u, t')) : p ≠ some a ∧ ∃ s,
    t.heap.get a = some s ∧ s.rxcmd.reply = x.cmd.reply ∧
      update a (fun s => { s with rxcmd := x.cmd.noDelete }) t = .ok (u, t') := by
  simp only [rxReply, bind_ok_iff, deref_ok, check_ok] at h
  obtain ⟨_, t, ⟨hp, rfl⟩, s, t, ⟨hs, rfl⟩, _, t, ⟨hr, rfl⟩, h⟩ := h
  exact ⟨hp, s, hs, hr, h⟩

/-- The four ways through the switch. -/
theorem rxSwitch_cases {c : Addr} (h : rxSwitch env i m x p a t = .ok ((c, e), t')) :
    (x.cmd.opens = true ∧ p = some a ∧ e = .ok ∧ rxOpen env i m x a t = .ok (c, t')) ∨
    (x.cmd.create = true ∧ x.cmd.reply = true ∧ c = a ∧ e = .ok ∧
      rxReply x p a t = .ok ((), t')) ∨
    (x.cmd.create = false ∧ x.cmd.delete = true ∧ c = a ∧ rxDelete x p a t = .ok (e, t')) ∨
    (x.cmd.create = false ∧ x.cmd.delete = false ∧ c = a ∧ rxStream x p a t = .ok (e, t')) := by
  cases hc : x.cmd.create with
  | true =>
    cases hr : x.cmd.reply with
    | false =>
      simp only [rxSwitch, hc, hr, bind_ok_iff, check_ok, pure_ok_iff] at h
      obtain ⟨_, t, ⟨hp, rfl⟩, c', t', h, heq, rfl⟩ := h
      cases heq
      exact Or.inl ⟨by rw [Cmd.opens, hc, hr]; rfl, hp, rfl, h⟩
    | true =>
      simp only [rxSwitch, hc, hr, bind_ok_iff, pure_ok_iff] at h
      obtain ⟨_, t', h, heq, rfl⟩ := h
      cases heq
      exact Or.inr (Or.inl ⟨rfl, rfl, rfl, rfl, h⟩)
  | false =>
    cases hd : x.cmd.delete with
    | true =>
      simp only [rxSwitch, hc, hd, bind_ok_iff, pure_ok_iff] at h
      obtain ⟨e', t', h, heq, rfl⟩ := h
      cases heq
      exact Or.inr (Or.inr (Or.inl ⟨rfl, rfl, rfl, h⟩))
    | false =>
      simp only [rxSwitch, hc, hd, bind_ok_iff, pure_ok_iff] at h
      obtain ⟨e', t', h, heq, rfl⟩ := h
      cases heq
      exact Or.inr (Or.inr (Or.inr ⟨rfl, rfl, rfl, h⟩))

/-- The message is bound to the state that the switch chose; a DELETE closes it. -/
theorem rxMatched_ok (h : rxMatched env i m x p a t = .ok (e, t')) : ∃ y ys tc t1 t2,
    rxSwitch env i m x p a t = .ok ((y.state, e), t1) ∧ t1.msgs.get m = some y ∧
      t1.heap.get y.state = some ys ∧
      updMsg m (fun y => { y with tcmd := tc }) t1 = .ok ((), t2) ∧
      whenT (ys.root = false ∧ x.cmd.delete = true) (rxClose x y.state ys) t2 = .ok ((), t') := by
  simp only [rxMatched, bind_ok_iff] at h
  obtain ⟨⟨c, er⟩, t1, h1, h⟩ := h
  simp only [rxTcmd, rxCommit, bind_ok_iff, getMsg_ok, deref_ok, check_ok, pure_ok_iff] at h
  obtain ⟨_, t2, ⟨y, t1, ⟨hy, rfl⟩, _, t1, ⟨-, rfl⟩, _, t1, ⟨-, rfl⟩, h2⟩, _, t3, ⟨z, t2, ⟨hz, rfl⟩,
    zs, t2, ⟨hzs, rfl⟩, _, t2, ⟨-, rfl⟩, _, t2, ⟨rfl, rfl⟩, h3⟩, rfl, rfl⟩ := h
  have hupd := h2
  obtain ⟨-, rfl⟩ := updMsg_ok.mp hupd
  rw [Store.get_modify_some _ hy] at hz
  cases hz
  exact ⟨y, zs, _, t1, _, h1, hy, hzs, h2, h3⟩

end Inversion

end Lh1.Dmsg
