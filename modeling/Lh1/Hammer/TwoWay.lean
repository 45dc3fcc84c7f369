/-
  The two-way mirror protocol (`hammer_cmd_mirror_read` and `hammer_cmd_mirror_write` of
  cmd_mirror.c, with -2).

  The source and the target are connected by a pipe in each direction. In a round the source says
  hello, the target answers with the TID it is synced to, the source announces the TID range of
  the round, sends the records and SYNC, or IDLE when there are none to ask for, and the target
  acknowledges. A process can stop at any point, and the link can be lost with what is in it. When
  a process is gone or the link is, both can be started again. A mirror-write that is still there
  goes on with what it has not read yet; an old mirror-read has no part in what follows. Meanwhile
  the source file system goes on: it commits transactions above its sync_end_tid.
  HAMMERIOC_MIRROR_READ returns the changes of the TID range asked for. TIDs are below
  HAMMER_MAX_TID, which stands for no transaction. The histogram is in memory that reads as zero
  until it is written.

  * `Inv.step`: where the one message is that somebody waits for, and that a SYNC on its way to
    the target has everything in front of it that it promises.
  * `mirror_no_lost_update`: the target's sync_end_tid moves only over what it has received, if no
    SYNC is left to a mirror-write that a restart leaves behind.
  * `mirror_target_behind`: the target is never ahead of the source.
  * `mirror_no_deadlock`: without the time limit the processes never wait for each other.
-/
import Lh1.Lib.Run
import Lh1.Hammer.Histogram

namespace Lh1.Hammer.Mirror

open Lib

/-! ## Processes -/

/-- What a transaction did: it created or deleted a record. -/
structure Change (α : Type) where
  tid : Nat
  what : α
  deriving DecidableEq

inductive Msg (α : Type) where
  | pfsd (p : Pfsd)
  | bulk (mrecs : List (Change α))
  | sync
  | idle
  | update (tid : Nat)
  | term
  deriving DecidableEq

/-- Where `hammer_cmd_mirror_read` is. -/
inductive SourcePc (α : Type) where
  | start
  | awaitPfsd
  | streaming (tidBeg tidEnd : Nat) (todo : List (Change α))
  | idle
  | awaitUpdate (interrupted : Bool)
  | waiting
  | exited
  deriving DecidableEq

/-- Where `hammer_cmd_mirror_write` is; `got` is what came in since the header of the round. -/
inductive TargetPc (α : Type) where
  | awaitFirst
  | awaitHeader
  | receiving (tidBeg tidEnd : Nat) (got : List (Change α))
  | ack (tidEnd : Nat)
  | exited
  deriving DecidableEq

/-- A mirror-write of an earlier start, and what it has not read yet. -/
structure Late (α : Type) where
  tgt : TargetPc α
  toTarget : List (Msg α)

structure Session (α : Type) where
  /-- The changes in the source file system. -/
  fs : List (Change α)
  source : Pfsd
  target : Pfsd
  ctl : Control
  bulkOpt : Bool
  src : SourcePc α
  tgt : TargetPc α
  toTarget : List (Msg α)
  toSource : List (Msg α)
  linked : Bool
  late : List (Late α)

/-- `HAMMER_MAX_TID`. -/
def maxTid : Nat := 2 ^ 64 - 1

inductive Action (α : Type) where
  | hello
  | negotiate (mrecs : List MrecInfo) (splitupOpt : Nat)
  | batch (n : Nat) (timer : Bool)
  | sendIdle
  | readUpdate
  | wake (ok : Bool)
  | targetRead
  | targetAck
  | lateRead (i : Nat)
  | stopSource
  | stopTarget
  | cut (n m : Nat)
  | restart (streaming : Bool) (bulkOpt : Bool)
  | commit (fs : List (Change α)) (source : Pfsd)

section

variable {α : Type}

/-! ## Steps of the source -/

/-- The source goes on to `src` with `toSource` unread, and writes `out`. What is written when the
    link is gone gets lost. -/
@[simps] def Session.sourceTo (s : Session α) (toSource : List (Msg α)) (ctl : Control)
    (src : SourcePc α) (out : List (Msg α)) : Session α :=
  { s with toSource, ctl, src,
           toTarget := if s.linked then s.toTarget ++ out else s.toTarget }

/-- HAMMERIOC_MIRROR_READ over a TID range. -/
def mirrorRange (fs : List (Change α)) (tidBeg tidEnd : Nat) : List (Change α) :=
  fs.filter fun c => tidBeg ≤ c.tid ∧ c.tid ≤ tidEnd

/-- The answer to the hello: the source selects its TID range and announces it. -/
def Session.negotiate (s : Session α) (mrecs : List MrecInfo) (splitupOpt : Nat) (p : Pfsd)
    (rest : List (Msg α)) : Session α :=
  match s.ctl.select s.bulkOpt (generateHistogram mrecs splitupOpt) (some p.syncEndTid)
    s.source with
  | .error _ => s.sourceTo rest s.ctl .exited []
  | .ok (ctl, tidBeg, tidEnd) =>
    let (ctl, didwork) := ctl.settle tidBeg tidEnd
    s.sourceTo rest ctl
      (if didwork then .streaming tidBeg tidEnd (mirrorRange s.fs tidBeg tidEnd) else .idle)
      [.pfsd ⟨s.source.syncBegTid, tidEnd⟩]

/-- A turn of the bulk loop, for `n` of the changes that are left; the ioctl returns nothing only
    at the end. The timer ends the loop, and then there is no SYNC. -/
def Session.batch (s : Session α) (tidBeg tidEnd : Nat) (todo : List (Change α)) (n : Nat)
    (timer : Bool) : Session α :=
  match timer, n with
  | true, 0 => s.sourceTo s.toSource s.ctl (.awaitUpdate true) []
  | true, n => s.sourceTo s.toSource s.ctl (.awaitUpdate true) [.bulk (todo.take n)]
  | false, 0 => s.sourceTo s.toSource s.ctl (.awaitUpdate false) [.sync]
  | false, n =>
    s.sourceTo s.toSource s.ctl (.streaming tidBeg tidEnd (todo.drop n)) [.bulk (todo.take n)]

/-- The end of a round: on to the next slice, wait for the source, or terminate. -/
def Session.endRound (s : Session α) (interrupted : Bool) (rest : List (Msg α)) : Session α :=
  if interrupted then s.sourceTo rest s.ctl .exited [.term]
  else
    match s.ctl.advance with
    | .again => s.sourceTo rest s.ctl .start []
    | .wait => s.sourceTo rest s.ctl .waiting []
    | .finish => s.sourceTo rest s.ctl .exited [.term]

/-! ## Steps of the target -/

@[simps] def Session.targetTo (s : Session α) (toTarget : List (Msg α)) (target : Pfsd)
    (tgt : TargetPc α) (out : List (Msg α)) : Session α :=
  { s with toTarget, target, tgt,
           toSource := if s.linked then s.toSource ++ out else s.toSource }

/-- The target reads `m`. A record that is not expected ends the program. -/
def Session.targetRead (s : Session α) (m : Msg α) (rest : List (Msg α)) : Session α :=
  match s.tgt, m with
  | .awaitFirst, .pfsd _ => s.targetTo rest s.target .awaitHeader [.pfsd s.target]
  | .awaitHeader, .pfsd p =>
    s.targetTo rest s.target (.receiving p.syncBegTid p.syncEndTid []) []
  | .receiving tidBeg tidEnd got, .bulk mrecs =>
    s.targetTo rest s.target (.receiving tidBeg tidEnd (got ++ mrecs)) []
  | .receiving _ tidEnd _, .sync =>
    s.targetTo rest ⟨s.target.syncBegTid, tidEnd⟩ (.ack tidEnd) []
  | .receiving _ tidEnd _, .idle => s.targetTo rest s.target (.ack tidEnd) []
  | _, _ => s.targetTo rest s.target .exited []

/-- The target waits for a record. -/
def TargetPc.Waits : TargetPc α → Prop
  | .awaitFirst | .awaitHeader | .receiving _ _ _ => True
  | .ack _ | .exited => False

instance (pc : TargetPc α) : Decidable pc.Waits := by
  cases pc <;> unfold TargetPc.Waits <;> infer_instance

def Session.readNext (s : Session α) : Except Unit (Session α) :=
  match s.toTarget with
  | m :: rest => if s.tgt.Waits then .ok (s.targetRead m rest) else .error ()
  | [] => .error ()

/-- A mirror-write of an earlier start reads its next record. It works on the same PFS; nobody reads
    its answer, behind which nothing more comes. -/
def Session.lateRead (s : Session α) (i : Nat) : Except Unit (Session α) :=
  match s.late[i]? with
  | none => .error ()
  | some w =>
    match Session.readNext { s with tgt := w.tgt, toTarget := w.toTarget, linked := false } with
    | .error e => .error e
    | .ok t => .ok { s with target := t.target, late := s.late.set i ⟨t.tgt, t.toTarget⟩ }

/-! ## The system -/

/-- A step; it fails where it is not possible. -/
def Session.step [DecidableEq α] (s : Session α) : Action α → Except Unit (Session α)
  | .hello =>
    if s.src = .start then .ok (s.sourceTo s.toSource s.ctl .awaitPfsd [.pfsd s.source])
    else .error ()
  | .negotiate mrecs splitupOpt =>
    match s.src, s.toSource with
    | .awaitPfsd, .pfsd p :: rest => .ok (s.negotiate mrecs splitupOpt p rest)
    | .awaitPfsd, _ :: rest => .ok (s.sourceTo rest s.ctl .exited [])
    | _, _ => .error ()
  | .batch n timer =>
    match s.src with
    | .streaming tidBeg tidEnd todo =>
      if n = 0 ↔ todo = [] then .ok (s.batch tidBeg tidEnd todo n timer) else .error ()
    | _ => .error ()
  | .sendIdle =>
    if s.src = .idle then .ok (s.sourceTo s.toSource s.ctl (.awaitUpdate false) [.idle])
    else .error ()
  | .readUpdate =>
    match s.src, s.toSource with
    | .awaitUpdate interrupted, .update _ :: rest => .ok (s.endRound interrupted rest)
    | .awaitUpdate _, _ :: rest => .ok (s.sourceTo rest s.ctl .exited [])
    | _, _ => .error ()
  | .wake true =>
    if s.src = .waiting then .ok (s.sourceTo s.toSource s.ctl .start []) else .error ()
  | .wake false =>
    if s.src = .waiting then .ok (s.sourceTo s.toSource s.ctl .exited [.term]) else .error ()
  | .targetRead => s.readNext
  | .targetAck =>
    match s.tgt with
    | .ack tidEnd => .ok (s.targetTo s.toTarget s.target .awaitFirst [.update tidEnd])
    | _ => .error ()
  | .lateRead i => s.lateRead i
  | .stopSource => .ok { s with src := .exited }
  | .stopTarget => .ok { s with tgt := .exited }
  | .cut n m => .ok { s with
      toTarget := s.toTarget.take n, toSource := s.toSource.take m, linked := false }
  | .restart streaming bulkOpt =>
    if s.src = .exited ∨ s.tgt = .exited ∨ s.linked = false then
      .ok { s with
        ctl := Control.init (if streaming then .stream else .read), bulkOpt,
        src := .start, tgt := .awaitFirst, toTarget := [], toSource := [], linked := true,
        late := ⟨s.tgt, s.toTarget⟩ :: s.late }
    else .error ()
  | .commit fs source =>
    if s.source.syncEndTid ≤ source.syncEndTid ∧ source.syncEndTid < maxTid ∧
        ∀ c ∈ fs, c.tid ≤ s.source.syncEndTid → c ∈ s.fs then
      .ok { s with fs, source }
    else .error ()

/-- Before anything is started. -/
structure Session.Init (s : Session α) : Prop where
  src : s.src = .exited
  tgt : s.tgt = .exited
  late : s.late = []
  source : s.source.syncEndTid < maxTid
  target : s.target.syncEndTid < maxTid

/-! ## What is on its way -/

/-- `l` has all changes of the source in a TID range. -/
def Complete (fs : List (Change α)) (tidBeg tidEnd : Nat) (l : List (Change α)) : Prop :=
  ∀ c ∈ fs, tidBeg ≤ c.tid → c.tid ≤ tidEnd → c ∈ l

/-- What a SYNC promises to a target that is synced to `synced`. -/
structure Promise (fs : List (Change α)) (syncEnd synced tidBeg tidEnd : Nat)
    (got : List (Change α)) : Prop where
  advance : synced < tidEnd
  committed : tidEnd ≤ syncEnd
  complete : Complete fs (max (synced + 1) tidBeg) tidEnd got

/-- When the target has read `q` it is receiving, with `got`. -/
inductive Feed : TargetPc α → List (Msg α) → Nat → Nat → List (Change α) → Prop
  | here (tidBeg tidEnd : Nat) (got : List (Change α)) :
      Feed (.receiving tidBeg tidEnd got) [] tidBeg tidEnd got
  | bulk {tidBeg tidEnd tidBeg' tidEnd' : Nat} {got mrecs got' : List (Change α)}
      {q : List (Msg α)}
      (h : Feed (.receiving tidBeg tidEnd (got ++ mrecs)) q tidBeg' tidEnd' got') :
      Feed (.receiving tidBeg tidEnd got) (.bulk mrecs :: q) tidBeg' tidEnd' got'
  | header {p : Pfsd} {tidBeg tidEnd : Nat} {got : List (Change α)} {q : List (Msg α)}
      (h : Feed (.receiving p.syncBegTid p.syncEndTid []) q tidBeg tidEnd got) :
      Feed .awaitHeader (.pfsd p :: q) tidBeg tidEnd got

/-- What can be on its way to a target that said it is synced to `synced`: nothing follows a message
    that the target answers, and a SYNC keeps its promise. -/
inductive Lawful (fs : List (Change α)) (syncEnd synced : Nat) :
    TargetPc α → List (Msg α) → Prop
  | nil (pc : TargetPc α) : Lawful fs syncEnd synced pc []
  | exited (q : List (Msg α)) : Lawful fs syncEnd synced .exited q
  | hello (p : Pfsd) : Lawful fs syncEnd synced .awaitFirst [.pfsd p]
  | term : Lawful fs syncEnd synced .awaitFirst [.term]
  | header {p : Pfsd} {q : List (Msg α)}
      (h : Lawful fs syncEnd synced (.receiving p.syncBegTid p.syncEndTid []) q) :
      Lawful fs syncEnd synced .awaitHeader (.pfsd p :: q)
  | bulk {tidBeg tidEnd : Nat} {got mrecs : List (Change α)} {q : List (Msg α)}
      (h : Lawful fs syncEnd synced (.receiving tidBeg tidEnd (got ++ mrecs)) q) :
      Lawful fs syncEnd synced (.receiving tidBeg tidEnd got) (.bulk mrecs :: q)
  | sync {tidBeg tidEnd : Nat} {got : List (Change α)}
      (h : Promise fs syncEnd synced tidBeg tidEnd got) :
      Lawful fs syncEnd synced (.receiving tidBeg tidEnd got) [.sync]
  | idle (tidBeg tidEnd : Nat) (got : List (Change α)) :
      Lawful fs syncEnd synced (.receiving tidBeg tidEnd got) [.idle]

/-- Where a round is, while both processes run and the link is there. Only one of them has
    something to say at a time; the other one waits for it. `target` is what the target says of
    itself in this round. -/
inductive Phase (fs : List (Change α)) (syncEnd : Nat) (target : Pfsd) :
    SourcePc α → TargetPc α → List (Msg α) → List (Msg α) → Prop
  | start : Phase fs syncEnd target .start .awaitFirst [] []
  | waiting : Phase fs syncEnd target .waiting .awaitFirst [] []
  | asked (p : Pfsd) : Phase fs syncEnd target .awaitPfsd .awaitFirst [.pfsd p] []
  | told : Phase fs syncEnd target .awaitPfsd .awaitHeader [] [.pfsd target]
  | streaming {pc : TargetPc α} {q : List (Msg α)} {tidBeg tidEnd : Nat}
      {got todo : List (Change α)} (hfeed : Feed pc q tidBeg tidEnd got)
      (h : Promise fs syncEnd target.syncEndTid tidBeg tidEnd (got ++ todo)) :
      Phase fs syncEnd target (.streaming (max (target.syncEndTid + 1) tidBeg) tidEnd todo) pc q []
  | idle {pc : TargetPc α} {q : List (Msg α)} {tidBeg tidEnd : Nat} {got : List (Change α)}
      (hfeed : Feed pc q tidBeg tidEnd got) : Phase fs syncEnd target .idle pc q []
  | interrupted {pc : TargetPc α} {q : List (Msg α)} {tidBeg tidEnd : Nat}
      {got : List (Change α)} (hfeed : Feed pc q tidBeg tidEnd got) :
      Phase fs syncEnd target (.awaitUpdate true) pc q []
  | ended {pc : TargetPc α} {q : List (Msg α)} {tidBeg tidEnd : Nat} {got : List (Change α)}
      {m : Msg α} (hfeed : Feed pc q tidBeg tidEnd got) (hm : m = .sync ∨ m = .idle) :
      Phase fs syncEnd target (.awaitUpdate false) pc (q ++ [m]) []
  | acking (tidEnd : Nat) : Phase fs syncEnd target (.awaitUpdate false) (.ack tidEnd) [] []
  | acked (tidEnd : Nat) :
      Phase fs syncEnd target (.awaitUpdate false) .awaitFirst [] [.update tidEnd]

variable {rest : List (Msg α)} {tidBeg tidEnd : Nat} {s : Session α}

theorem Feed.append {pc : TargetPc α} {q : List (Msg α)} {got : List (Change α)}
    (h : Feed pc q tidBeg tidEnd got) (mrecs : List (Change α)) :
    Feed pc (q ++ [.bulk mrecs]) tidBeg tidEnd (got ++ mrecs) := by
  induction h with
  | here tidBeg tidEnd got => exact .bulk (.here _ _ _)
  | bulk _ ih => exact .bulk ih
  | header _ ih => exact .header ih

section

variable {fs : List (Change α)} {syncEnd synced : Nat} {target : Pfsd}

variable {fs' : List (Change α)} {q : List (Msg α)} {pc : TargetPc α}

/-- A queue that leads to `got` may be followed by what may follow there. -/
theorem Feed.lawful {r : List (Msg α)} {tidBeg tidEnd : Nat} {got : List (Change α)}
    (h : Feed pc q tidBeg tidEnd got)
    (hr : Lawful fs syncEnd synced (.receiving tidBeg tidEnd got) r) :
    Lawful fs syncEnd synced pc (q ++ r) := by
  induction h with
  | here => exact hr
  | bulk _ ih => exact .bulk (ih hr)
  | header _ ih => exact .header (ih hr)

theorem Lawful.take (h : Lawful fs syncEnd synced pc q) (n : Nat) :
    Lawful fs syncEnd synced pc (q.take n) := by
  induction h generalizing n with
  | nil pc => rw [List.take_nil]; exact .nil pc
  | exited q => exact .exited _
  | hello p => cases n with
    | zero => exact .nil _
    | succ n => rw [List.take_succ_cons, List.take_nil]; exact .hello p
  | term => cases n with
    | zero => exact .nil _
    | succ n => rw [List.take_succ_cons, List.take_nil]; exact .term
  | header _ ih => cases n with
    | zero => exact .nil _
    | succ n => exact .header (ih n)
  | bulk _ ih => cases n with
    | zero => exact .nil _
    | succ n => exact .bulk (ih n)
  | sync hp => cases n with
    | zero => exact .nil _
    | succ n => rw [List.take_succ_cons, List.take_nil]; exact .sync hp
  | idle => cases n with
    | zero => exact .nil _
    | succ n => rw [List.take_succ_cons, List.take_nil]; exact .idle _ _ _

/-- Commits are above what has been promised. -/
theorem Promise.commit {syncEnd' tidBeg tidEnd : Nat} {got : List (Change α)}
    (hle : syncEnd ≤ syncEnd') (hfs : ∀ c ∈ fs', c.tid ≤ syncEnd → c ∈ fs)
    (h : Promise fs syncEnd synced tidBeg tidEnd got) :
    Promise fs' syncEnd' synced tidBeg tidEnd got :=
  ⟨h.advance, h.committed.trans hle,
    fun c hc hb he => h.complete c (hfs c hc (he.trans h.committed)) hb he⟩

theorem Lawful.commit {syncEnd' : Nat} (hle : syncEnd ≤ syncEnd')
    (hfs : ∀ c ∈ fs', c.tid ≤ syncEnd → c ∈ fs) (h : Lawful fs syncEnd synced pc q) :
    Lawful fs' syncEnd' synced pc q := by
  induction h with
  | nil pc => exact .nil pc
  | exited q => exact .exited q
  | hello p => exact .hello p
  | term => exact .term
  | header _ ih => exact .header ih
  | bulk _ ih => exact .bulk ih
  | sync hp => exact .sync (hp.commit hle hfs)
  | idle => exact .idle _ _ _

theorem Phase.commit {syncEnd' : Nat} {src : SourcePc α} {r : List (Msg α)}
    (hle : syncEnd ≤ syncEnd') (hfs : ∀ c ∈ fs', c.tid ≤ syncEnd → c ∈ fs)
    (h : Phase fs syncEnd target src pc q r) : Phase fs' syncEnd' target src pc q r := by
  cases h with
  | start => exact .start
  | waiting => exact .waiting
  | asked p => exact .asked p
  | told => exact .told
  | streaming hfeed hp => exact .streaming hfeed (hp.commit hle hfs)
  | idle hfeed => exact .idle hfeed
  | interrupted hfeed => exact .interrupted hfeed
  | ended hfeed hm => exact .ended hfeed hm
  | acking tidEnd => exact .acking tidEnd
  | acked tidEnd => exact .acked tidEnd

end

/-! ## TIDs the source announces -/

/-- A round begins behind what the target has. -/
theorem Control.select_begin {c c' : Control} {bulkOpt : Bool}
    {generate : (Nat → Slice) → Nat → Nat → Except HistFault Hist} {synced : Nat} {pfsd : Pfsd}
    (hsynced : synced < maxTid)
    (h : c.select bulkOpt generate (some synced) pfsd = .ok (c', tidBeg, tidEnd)) :
    tidBeg = max (synced + 1) pfsd.syncBegTid := by
  have hbegin : c.beginTid (some synced) = synced + 1 := by
    rw [Control.beginTid]
    exact Nat.mod_eq_of_lt (by simp only [maxTid] at hsynced; omega)
  rw [Control.select, hbegin] at h
  split at h
  · cases h
  · cases h
    rfl

/-- A round ends with what is committed. -/
theorem Control.select_le {c c' : Control} {bulkOpt : Bool} {mrecs : List MrecInfo}
    {splitupOpt : Nat} {target : Option Nat} {pfsd : Pfsd} (hend : pfsd.syncEndTid < maxTid)
    (hary : ∀ k, (c.ary k).tid ≤ pfsd.syncEndTid)
    (h : c.select bulkOpt (generateHistogram mrecs splitupOpt) target pfsd
      = .ok (c', tidBeg, tidEnd)) :
    tidEnd ≤ pfsd.syncEndTid ∧ ∀ k, (c'.ary k).tid ≤ pfsd.syncEndTid := by
  rw [Control.select] at h
  split at h
  · cases h
  · rename_i d hd
    cases h
    have hle := c.bulkStartup_le (by simp only [maxTid] at hend; omega) hary hd
    rw [Control.nextSlice]
    split
    · exact ⟨hle _, hle⟩
    · exact ⟨le_refl _, hle⟩

theorem Control.settle_of_lt (c : Control) (h : tidBeg < tidEnd) :
    c.settle tidBeg tidEnd = (c, true) :=
  if_neg (not_le.mpr h)

theorem Control.settle_of_le (c : Control) (h : tidEnd ≤ tidBeg) :
    c.settle tidBeg tidEnd = ({ c with histogram := false }, false) :=
  if_pos h

theorem complete_mirrorRange (fs : List (Change α)) (tidBeg tidEnd : Nat) :
    Complete fs tidBeg tidEnd (mirrorRange fs tidBeg tidEnd) := by
  intro c hc hb he
  rw [mirrorRange, List.mem_filter]
  exact ⟨hc, decide_eq_true ⟨hb, he⟩⟩

/-! ## The invariant -/

/-- The invariant, when `told` is what the target has said of itself. A late SYNC may have moved the
    target since. -/
structure Session.Inv (told : Pfsd) (s : Session α) : Prop where
  source : s.source.syncEndTid < maxTid
  target : s.target.syncEndTid < maxTid
  said : told.syncEndTid < maxTid
  ary : s.src ≠ .exited → ∀ k, (s.ctl.ary k).tid ≤ s.source.syncEndTid
  lawful : Lawful s.fs s.source.syncEndTid told.syncEndTid s.tgt s.toTarget
  phase : s.linked → s.src ≠ .exited → s.tgt ≠ .exited →
    Phase s.fs s.source.syncEndTid told s.src s.tgt s.toTarget s.toSource
  late : ∀ w ∈ s.late, ∃ synced, Lawful s.fs s.source.syncEndTid synced w.tgt w.toTarget

theorem Session.Init.inv (h : s.Init) : s.Inv s.target where
  source := h.source
  target := h.target
  said := h.target
  ary hne := absurd h.src hne
  lawful := by
    rw [h.tgt]
    exact .exited _
  phase _ hne := absurd h.src hne
  late := by
    rw [h.late]
    exact List.forall_mem_nil _

variable {told : Pfsd}

/-! ## Steps of the source keep the invariant -/

/-- What a step of the source has to show: that its output and its next state fit the phase. -/
theorem Session.Inv.sourceTo (h : s.Inv told) {toSource : List (Msg α)} {ctl : Control}
    {src : SourcePc α} {out : List (Msg α)} (hsrc : s.src ≠ .exited)
    (hary : ∀ k, (ctl.ary k).tid ≤ s.source.syncEndTid)
    (hout : Phase s.fs s.source.syncEndTid told s.src s.tgt s.toTarget s.toSource →
      Lawful s.fs s.source.syncEndTid told.syncEndTid s.tgt (s.toTarget ++ out) ∧
        (src ≠ .exited → Phase s.fs s.source.syncEndTid told src s.tgt (s.toTarget ++ out)
          toSource)) : (s.sourceTo toSource ctl src out).Inv told where
  source := h.source
  target := h.target
  said := h.said
  late := h.late
  ary _ := hary
  lawful := by
    rw [sourceTo_toTarget]
    by_cases hl : s.linked
    · by_cases ht : s.tgt = .exited
      · rw [sourceTo_tgt, ht]
        exact .exited _
      · rw [if_pos hl]
        exact (hout (h.phase hl hsrc ht)).1
    · rw [if_neg hl]
      exact h.lawful
  phase hl hsrc' ht := by
    have hl' : s.linked := hl
    rw [sourceTo_toTarget, if_pos hl']
    exact (hout (h.phase hl' hsrc ht)).2 hsrc'

theorem Session.Inv.exit (h : s.Inv told) (hsrc : s.src ≠ .exited) (rest : List (Msg α)) :
    (s.sourceTo rest s.ctl .exited []).Inv told := by
  refine h.sourceTo hsrc (h.ary hsrc) fun _ => ⟨?_, fun hex => absurd rfl hex⟩
  rw [List.append_nil]
  exact h.lawful

section

variable {fs : List (Change α)} {syncEnd : Nat} {target : Pfsd} {pc : TargetPc α}
  {q r : List (Msg α)}

theorem Phase.start_inv (h : Phase fs syncEnd target .start pc q r) :
    pc = .awaitFirst ∧ q = [] ∧ r = [] := by
  cases h
  exact ⟨rfl, rfl, rfl⟩

theorem Phase.waiting_inv (h : Phase fs syncEnd target .waiting pc q r) :
    pc = .awaitFirst ∧ q = [] ∧ r = [] := by
  cases h
  exact ⟨rfl, rfl, rfl⟩

theorem Phase.told_inv {m : Msg α} (h : Phase fs syncEnd target .awaitPfsd pc q (m :: r)) :
    m = .pfsd target ∧ pc = .awaitHeader ∧ q = [] ∧ r = [] := by
  cases h
  exact ⟨rfl, rfl, rfl, rfl⟩

theorem Phase.streaming_inv {tidBeg tidEnd : Nat} {todo : List (Change α)}
    (h : Phase fs syncEnd target (.streaming tidBeg tidEnd todo) pc q r) :
    ∃ syncBeg got, tidBeg = max (target.syncEndTid + 1) syncBeg ∧ Feed pc q syncBeg tidEnd got ∧
      Promise fs syncEnd target.syncEndTid syncBeg tidEnd (got ++ todo) ∧ r = [] := by
  cases h with
  | streaming hfeed hp => exact ⟨_, _, rfl, hfeed, hp, rfl⟩

theorem Phase.idle_inv (h : Phase fs syncEnd target .idle pc q r) :
    ∃ tidBeg tidEnd got, Feed pc q tidBeg tidEnd got ∧ r = [] := by
  cases h with
  | idle hfeed => exact ⟨_, _, _, hfeed, rfl⟩

theorem Phase.acked_inv {interrupted : Bool} {m : Msg α}
    (h : Phase fs syncEnd target (.awaitUpdate interrupted) pc q (m :: r)) :
    interrupted = false ∧ pc = .awaitFirst ∧ q = [] ∧ r = [] := by
  cases h
  exact ⟨rfl, rfl, rfl, rfl⟩

end

theorem Session.Inv.hello (h : s.Inv told) (hsrc : s.src = .start) :
    (s.sourceTo s.toSource s.ctl .awaitPfsd [.pfsd s.source]).Inv told := by
  have hne : s.src ≠ .exited := by simp [hsrc]
  refine h.sourceTo hne (h.ary hne) fun hp => ?_
  rw [hsrc] at hp
  obtain ⟨ht, hq, hr⟩ := hp.start_inv
  rw [ht, hq, hr]
  exact ⟨.hello _, fun _ => .asked _⟩

/-- The range that is announced begins where the target is. -/
theorem Session.Inv.negotiate (h : s.Inv told) (hsrc : s.src = .awaitPfsd) {p : Pfsd}
    (hin : s.toSource = .pfsd p :: rest) (mrecs : List MrecInfo) (splitupOpt : Nat) :
    (s.negotiate mrecs splitupOpt p rest).Inv told := by
  have hne : s.src ≠ .exited := by simp [hsrc]
  have hphase : Phase s.fs s.source.syncEndTid told s.src s.tgt s.toTarget s.toSource →
      p = told ∧ s.tgt = .awaitHeader ∧ s.toTarget = [] ∧ rest = [] := fun hp => by
    rw [hsrc, hin] at hp
    obtain ⟨hm, hrest⟩ := hp.told_inv
    exact ⟨Msg.pfsd.inj hm, hrest⟩
  rw [Session.negotiate]
  split
  · exact h.exit hne rest
  rename_i ctl tidBeg tidEnd hsel
  obtain ⟨hend, hary⟩ := Control.select_le h.source (h.ary hne) hsel
  rcases Nat.lt_or_ge tidBeg tidEnd with hlt | hge
  · rw [ctl.settle_of_lt hlt]
    refine h.sourceTo hne hary fun hp => ?_
    obtain ⟨rfl, ht, hq, hr⟩ := hphase hp
    have hbeg := Control.select_begin h.said hsel
    have hlt' : p.syncEndTid < tidEnd := by omega
    rw [ht, hq, hr]
    refine ⟨.header (.nil _), fun _ => ?_⟩
    rw [if_pos rfl, hbeg]
    exact .streaming (.header (.here _ _ _)) ⟨hlt', hend, complete_mirrorRange _ _ _⟩
  · rw [ctl.settle_of_le hge]
    refine h.sourceTo hne hary fun hp => ?_
    obtain ⟨-, ht, hq, hr⟩ := hphase hp
    rw [ht, hq, hr]
    exact ⟨.header (.nil _), fun _ => .idle (.header (.here _ _ _))⟩

theorem Session.Inv.batch (h : s.Inv told) {n : Nat} {todo : List (Change α)}
    (hsrc : s.src = .streaming tidBeg tidEnd todo) (hn : n = 0 ↔ todo = []) (timer : Bool) :
    (s.batch tidBeg tidEnd todo n timer).Inv told := by
  have hne : s.src ≠ .exited := by simp [hsrc]
  have hphase := fun hp : Phase s.fs s.source.syncEndTid told s.src s.tgt s.toTarget
    s.toSource => (hsrc ▸ hp).streaming_inv
  cases timer <;> cases n
  · -- everything is out
    refine h.sourceTo hne (h.ary hne) fun hp => ?_
    obtain ⟨syncBeg, got, -, hfeed, hpromise, hr⟩ := hphase hp
    rw [hn.mp rfl, List.append_nil] at hpromise
    rw [hr]
    exact ⟨hfeed.lawful (.sync hpromise), fun _ => .ended hfeed (.inl rfl)⟩
  · refine h.sourceTo hne (h.ary hne) fun hp => ?_
    obtain ⟨syncBeg, got, hbeg, hfeed, hpromise, hr⟩ := hphase hp
    rw [hr, hbeg]
    refine ⟨hfeed.lawful (.bulk (.nil _)), fun _ => .streaming (hfeed.append _) ?_⟩
    rw [List.append_assoc, List.take_append_drop]
    exact hpromise
  · refine h.sourceTo hne (h.ary hne) fun hp => ?_
    obtain ⟨syncBeg, got, -, hfeed, -, hr⟩ := hphase hp
    rw [hr, List.append_nil]
    exact ⟨by simpa using hfeed.lawful (.nil _), fun _ => .interrupted hfeed⟩
  · refine h.sourceTo hne (h.ary hne) fun hp => ?_
    obtain ⟨syncBeg, got, -, hfeed, -, hr⟩ := hphase hp
    rw [hr]
    exact ⟨hfeed.lawful (.bulk (.nil _)), fun _ => .interrupted (hfeed.append _)⟩

theorem Session.Inv.sendIdle (h : s.Inv told) (hsrc : s.src = .idle) :
    (s.sourceTo s.toSource s.ctl (.awaitUpdate false) [.idle]).Inv told := by
  have hne : s.src ≠ .exited := by simp [hsrc]
  refine h.sourceTo hne (h.ary hne) fun hp => ?_
  rw [hsrc] at hp
  obtain ⟨tidBeg, tidEnd, got, hfeed, hr⟩ := hp.idle_inv
  rw [hr]
  exact ⟨hfeed.lawful (.idle _ _ _), fun _ => .ended hfeed (.inr rfl)⟩

theorem Session.Inv.endRound (h : s.Inv told) {interrupted : Bool}
    (hsrc : s.src = .awaitUpdate interrupted) {m : Msg α} (hin : s.toSource = m :: rest) :
    (s.endRound interrupted rest).Inv told := by
  have hne : s.src ≠ .exited := by simp [hsrc]
  have hphase : Phase s.fs s.source.syncEndTid told s.src s.tgt s.toTarget s.toSource →
      interrupted = false ∧ s.tgt = .awaitFirst ∧ s.toTarget = [] ∧ rest = [] := fun hp => by
    rw [hsrc, hin] at hp
    exact hp.acked_inv
  have hstep : ∀ (src : SourcePc α) (out : List (Msg α)),
      Lawful s.fs s.source.syncEndTid told.syncEndTid .awaitFirst out →
      (src ≠ .exited → Phase s.fs s.source.syncEndTid told src .awaitFirst out []) →
      (s.sourceTo rest s.ctl src out).Inv told := fun src out hout hsrc' => by
    refine h.sourceTo hne (h.ary hne) fun hp => ?_
    obtain ⟨-, ht, hq, hr⟩ := hphase hp
    rw [ht, hq, hr]
    exact ⟨hout, hsrc'⟩
  rw [Session.endRound]
  split
  · exact hstep _ _ .term fun hex => absurd rfl hex
  · split
    · exact hstep _ _ (.nil _) fun _ => .start
    · exact hstep _ _ (.nil _) fun _ => .waiting
    · exact hstep _ _ .term fun hex => absurd rfl hex

theorem Session.Inv.wake (h : s.Inv told) (hsrc : s.src = .waiting) :
    (s.sourceTo s.toSource s.ctl .start []).Inv told ∧
      (s.sourceTo s.toSource s.ctl .exited [.term]).Inv told := by
  have hne : s.src ≠ .exited := by simp [hsrc]
  have hphase : Phase s.fs s.source.syncEndTid told s.src s.tgt s.toTarget s.toSource →
      s.tgt = .awaitFirst ∧ s.toTarget = [] ∧ s.toSource = [] := fun hp => by
    rw [hsrc] at hp
    exact hp.waiting_inv
  constructor
  · refine h.sourceTo hne (h.ary hne) fun hp => ?_
    obtain ⟨ht, hq, hr⟩ := hphase hp
    rw [ht, hq, hr]
    exact ⟨.nil _, fun _ => .start⟩
  · refine h.sourceTo hne (h.ary hne) fun hp => ?_
    obtain ⟨ht, hq, -⟩ := hphase hp
    rw [ht, hq]
    exact ⟨.term, fun hex => absurd rfl hex⟩

/-! ## Steps of the target keep the invariant -/

/-- What a step of the target has to show. -/
theorem Session.Inv.targetTo (h : s.Inv told) {target told' : Pfsd} {tgt : TargetPc α}
    {out : List (Msg α)} (htgt : s.tgt ≠ .exited) (hmax : target.syncEndTid < maxTid)
    (htold : told'.syncEndTid < maxTid)
    (hlawful : Lawful s.fs s.source.syncEndTid told'.syncEndTid tgt rest) (hphase : tgt ≠ .exited →
      Phase s.fs s.source.syncEndTid told s.src s.tgt s.toTarget s.toSource →
        Phase s.fs s.source.syncEndTid told' s.src tgt rest (s.toSource ++ out)) :
    (s.targetTo rest target tgt out).Inv told' where
  source := h.source
  target := hmax
  said := htold
  ary := h.ary
  late := h.late
  lawful := hlawful
  phase hl hsrc ht := by
    have hl' : s.linked := hl
    rw [targetTo_toSource, if_pos hl']
    exact hphase ht (h.phase hl' hsrc htgt)

section

variable {fs : List (Change α)} {syncEnd : Nat} {target : Pfsd} {src : SourcePc α}
  {pc : TargetPc α} {q r : List (Msg α)}

theorem Phase.hello_inv {p : Pfsd} (h : Phase fs syncEnd target src .awaitFirst q r)
    (hq : q = [.pfsd p]) : src = .awaitPfsd ∧ r = [] := by
  cases h with
  | asked => exact ⟨rfl, rfl⟩
  | start | waiting | acked => cases hq
  | streaming hfeed _ | idle hfeed | interrupted hfeed | ended hfeed _ => cases hfeed

/-- A message that the target does not answer leaves the phase as it is. -/
theorem Phase.pop {pc' : TargetPc α} {m : Msg α} (h : Phase fs syncEnd target src pc q r)
    (hq : ∃ rest, q = m :: rest) (hpc : pc ≠ .awaitFirst) (hsync : m ≠ .sync) (hidle : m ≠ .idle)
    (hpop : ∀ tidBeg tidEnd got q, Feed pc (m :: q) tidBeg tidEnd got →
      Feed pc' q tidBeg tidEnd got) : Phase fs syncEnd target src pc' q.tail r := by
  obtain ⟨rest, hq⟩ := hq
  cases h with
  | start | waiting | asked | acked => exact absurd rfl hpc
  | told | acking => cases hq
  | streaming hfeed hp =>
    subst hq
    exact .streaming (hpop _ _ _ _ hfeed) hp
  | idle hfeed =>
    subst hq
    exact .idle (hpop _ _ _ _ hfeed)
  | interrupted hfeed =>
    subst hq
    exact .interrupted (hpop _ _ _ _ hfeed)
  | @ended _ q _ _ _ m' hfeed hm =>
    -- the last message is one that is answered, so this one is in front of it
    cases q with
    | nil =>
      obtain rfl : m' = m := by simpa using congrArg List.head? hq
      rcases hm with rfl | rfl
      · exact absurd rfl hsync
      · exact absurd rfl hidle
    | cons m'' q =>
      obtain rfl : m'' = m := by simpa using congrArg List.head? hq
      exact .ended (hpop _ _ _ _ hfeed) hm

theorem Phase.ended_inv {m : Msg α} {tidBeg tidEnd : Nat} {got : List (Change α)}
    (h : Phase fs syncEnd target src (.receiving tidBeg tidEnd got) q r) (hq : q = [m])
    (hm : m = .sync ∨ m = .idle) : src = .awaitUpdate false ∧ r = [] := by
  cases h with
  | ended => exact ⟨rfl, rfl⟩
  | streaming hfeed _ | idle hfeed | interrupted hfeed =>
    subst hq
    rcases hm with rfl | rfl <;> cases hfeed

theorem Phase.acking_inv {tidEnd : Nat} (h : Phase fs syncEnd target src (.ack tidEnd) q r) :
    src = .awaitUpdate false ∧ q = [] ∧ r = [] := by
  cases h with
  | acking => exact ⟨rfl, rfl, rfl⟩
  | streaming hfeed _ | idle hfeed | interrupted hfeed | ended hfeed _ => cases hfeed

end

/-- What the target says of itself is what it is, as long as nobody else moves it. -/
theorem Session.Inv.targetRead (h : s.Inv told) {m : Msg α} (hq : s.toTarget = m :: rest)
    (hw : s.tgt.Waits) : ∃ told', (s.targetRead m rest).Inv told' ∧
      (told = s.target → told' = (s.targetRead m rest).target) := by
  have hlawful := h.lawful
  have htgt : s.tgt ≠ .exited := fun ht => by
    rw [ht] at hw
    exact hw
  rw [hq] at hlawful
  unfold Session.targetRead
  cases ht : s.tgt with
  | exited => exact absurd ht htgt
  | ack tidEnd =>
    rw [ht] at hw
    exact hw.elim
  | awaitFirst =>
    rw [ht] at hlawful
    cases hlawful with
    | hello p =>
      refine ⟨s.target, h.targetTo htgt h.target h.target (.nil _) fun _ hp => ?_, fun _ => rfl⟩
      rw [ht] at hp
      obtain ⟨hsrc, hr⟩ := hp.hello_inv hq
      rw [hsrc, hr]
      exact .told
    | term =>
      exact ⟨told, h.targetTo htgt h.target h.said (.exited _) fun hex => absurd rfl hex, id⟩
  | awaitHeader =>
    rw [ht] at hlawful
    cases hlawful with
    | header hnext =>
      refine ⟨told, h.targetTo htgt h.target h.said hnext fun _ hp => ?_, id⟩
      have := hp.pop ⟨rest, hq⟩ (by simp [ht]) nofun nofun fun _ _ _ _ hfeed => by
        rw [ht] at hfeed
        cases hfeed with
        | header hfeed => exact hfeed
      rwa [hq, List.tail_cons, ← List.append_nil s.toSource] at this
  | receiving tidBeg tidEnd got =>
    rw [ht] at hlawful
    cases hlawful with
    | bulk hnext =>
      refine ⟨told, h.targetTo htgt h.target h.said hnext fun _ hp => ?_, id⟩
      have := hp.pop ⟨rest, hq⟩ (by simp [ht]) nofun nofun fun _ _ _ _ hfeed => by
        rw [ht] at hfeed
        cases hfeed with
        | bulk hfeed => exact hfeed
      rwa [hq, List.tail_cons, ← List.append_nil s.toSource] at this
    | sync hpromise =>
      have hmax : tidEnd < maxTid := hpromise.committed.trans_lt h.source
      refine ⟨⟨s.target.syncBegTid, tidEnd⟩, h.targetTo htgt hmax hmax (.nil _) fun _ hp => ?_,
        fun _ => rfl⟩
      rw [ht] at hp
      obtain ⟨hsrc, hr⟩ := hp.ended_inv hq (.inl rfl)
      rw [hsrc, hr]
      exact .acking _
    | idle =>
      refine ⟨told, h.targetTo htgt h.target h.said (.nil _) fun _ hp => ?_, id⟩
      rw [ht] at hp
      obtain ⟨hsrc, hr⟩ := hp.ended_inv hq (.inr rfl)
      rw [hsrc, hr]
      exact .acking _

theorem Session.Inv.targetAck (h : s.Inv told) (ht : s.tgt = .ack tidEnd) :
    (s.targetTo s.toTarget s.target .awaitFirst [.update tidEnd]).Inv told := by
  have hq : s.toTarget = [] := by
    have hlawful := h.lawful
    rw [ht] at hlawful
    generalize s.toTarget = q at *
    cases hlawful
    rfl
  refine h.targetTo (by simp [ht]) h.target h.said (by rw [hq]; exact .nil _) fun _ hp => ?_
  rw [ht] at hp
  obtain ⟨hsrc, -, hr⟩ := hp.acking_inv
  rw [hsrc, hq, hr]
  exact .acked _

/-! ## Mirror-writes of earlier starts -/

theorem Session.readNext_ok {s' : Session α} (h : s.readNext = .ok s') :
    ∃ m rest, s.toTarget = m :: rest ∧ s.tgt.Waits ∧ s' = s.targetRead m rest := by
  unfold Session.readNext at h
  split at h
  · next m rest hq =>
    split at h
    · next hw => exact ⟨m, rest, hq, hw, (Except.ok.inj h).symm⟩
    · cases h
  · cases h

/-- Only a SYNC moves the target. -/
theorem Session.targetRead_target (s : Session α) (m : Msg α) (rest : List (Msg α)) :
    (s.targetRead m rest).target = s.target ∨ ∃ tidBeg tidEnd got,
      s.tgt = .receiving tidBeg tidEnd got ∧ m = .sync ∧
        (s.targetRead m rest).target = ⟨s.target.syncBegTid, tidEnd⟩ := by
  unfold Session.targetRead
  split
  · exact .inl rfl
  · exact .inl rfl
  · exact .inl rfl
  · exact .inr ⟨_, _, _, ‹_›, rfl, rfl⟩
  · exact .inl rfl
  · exact .inl rfl

theorem Session.targetRead_toTarget (s : Session α) (m : Msg α) (rest : List (Msg α)) :
    (s.targetRead m rest).toTarget = rest := by
  unfold Session.targetRead
  split <;> rfl

theorem Session.lateRead_ok {s' : Session α} {i : Nat} (h : s.lateRead i = .ok s') :
    ∃ (w : Late α) (m : Msg α) (rest : List (Msg α)), w ∈ s.late ∧ w.toTarget = m :: rest ∧
      w.tgt.Waits ∧ ∃ t : Session α,
        t = Session.targetRead { s with tgt := w.tgt, toTarget := w.toTarget, linked := false } m
          rest ∧ s' = { s with target := t.target, late := s.late.set i ⟨t.tgt, rest⟩ } := by
  unfold Session.lateRead at h
  split at h
  · cases h
  · next w hw =>
    split at h
    · cases h
    · next t ht =>
      obtain ⟨m, rest, hq, hwaits, rfl⟩ := Session.readNext_ok ht
      refine ⟨w, m, rest, List.mem_of_getElem? hw, hq, hwaits, _, rfl, ?_⟩
      rw [← Except.ok.inj h, Session.targetRead_toTarget]

theorem Lawful.read {fs : List (Change α)} {syncEnd synced : Nat} {m : Msg α}
    (h : Lawful fs syncEnd synced s.tgt (m :: rest)) (hw : s.tgt.Waits) :
    Lawful fs syncEnd synced (s.targetRead m rest).tgt rest := by
  unfold Session.targetRead
  cases ht : s.tgt with
  | exited | ack tidEnd =>
    rw [ht] at hw
    exact hw.elim
  | awaitFirst =>
    rw [ht] at h
    cases h with
    | hello p => exact .nil _
    | term => exact .nil _
  | awaitHeader =>
    rw [ht] at h
    cases h with
    | header hnext => exact hnext
  | receiving tidBeg tidEnd got =>
    rw [ht] at h
    cases h with
    | bulk hnext => exact hnext
    | sync _ => exact .nil _
    | idle => exact .nil _

/-- A SYNC does not go beyond what is committed. -/
theorem Lawful.sync_le {fs : List (Change α)} {syncEnd synced : Nat} {got : List (Change α)}
    (h : Lawful fs syncEnd synced (.receiving tidBeg tidEnd got) (.sync :: rest)) :
    tidEnd ≤ syncEnd := by
  cases h with
  | sync hpromise => exact hpromise.committed

theorem Session.Inv.lateRead (h : s.Inv told) {i : Nat} {w : Late α} {m : Msg α} {t : Session α}
    (hw : w ∈ s.late) (hq : w.toTarget = m :: rest) (hwaits : w.tgt.Waits)
    (ht : t = Session.targetRead { s with tgt := w.tgt, toTarget := w.toTarget, linked := false } m
      rest) :
    Session.Inv told { s with target := t.target, late := s.late.set i ⟨t.tgt, rest⟩ } := by
  obtain ⟨synced, hlawful⟩ := h.late w hw
  rw [hq] at hlawful
  refine ⟨h.source, ?_, h.said, h.ary, h.lawful, h.phase, fun w' hw' => ?_⟩
  · subst ht
    rcases Session.targetRead_target { s with tgt := w.tgt, toTarget := w.toTarget, linked := false }
      m rest with heq | ⟨tidBeg, tidEnd, got, htgt, rfl, heq⟩
    · rw [heq]
      exact h.target
    · have htgt' : w.tgt = .receiving tidBeg tidEnd got := htgt
      rw [htgt'] at hlawful
      rw [heq]
      exact hlawful.sync_le.trans_lt h.source
  · rcases List.mem_or_eq_of_mem_set hw' with hmem | rfl
    · exact h.late w' hmem
    · exact ⟨synced, ht ▸ Lawful.read hlawful hwaits⟩

/-! ## What a step does -/

/-- The time limit expires in a step. -/
def Action.Expires : Action α → Prop
  | .batch _ timer => timer
  | _ => False

/-- A step with which no round of the target ends. -/
def Action.InRound : Action α → Prop
  | .targetAck | .restart _ _ => False
  | _ => True

/-- What a step does. Of those of the source, only a hello and the answer to the target have PFS
    information, and only a turn in which the time limit expires ends without a SYNC. -/
inductive Session.Moves (s : Session α) : Action α → Session α → Prop
  | source {a : Action α} {toSource out : List (Msg α)} {ctl : Control} {src : SourcePc α}
      (round : a.InRound)
      (header : ∀ p rest, out = .pfsd p :: rest → s.src = .start ∨ ∃ mrecs splitupOpt,
        a = .negotiate mrecs splitupOpt ∧ p.syncBegTid = s.source.syncBegTid)
      (timer : src = .awaitUpdate true → a.Expires)
      (keeps : ∀ {told}, s.Inv told → (s.sourceTo toSource ctl src out).Inv told) :
      Moves s a (s.sourceTo toSource ctl src out)
  | read {m : Msg α} {rest : List (Msg α)} (queue : s.toTarget = m :: rest)
      (waits : s.tgt.Waits) : Moves s .targetRead (s.targetRead m rest)
  | ack {tidEnd : Nat} (tgt : s.tgt = .ack tidEnd) :
      Moves s .targetAck (s.targetTo s.toTarget s.target .awaitFirst [.update tidEnd])
  | late {i : Nat} {w : Late α} {m : Msg α} {rest : List (Msg α)} {t : Session α}
      (mem : w ∈ s.late) (queue : w.toTarget = m :: rest) (waits : w.tgt.Waits)
      (read : t = Session.targetRead { s with tgt := w.tgt, toTarget := w.toTarget, linked := false }
        m rest) :
      Moves s (.lateRead i) { s with target := t.target, late := s.late.set i ⟨t.tgt, rest⟩ }
  | stopSource : Moves s .stopSource { s with src := .exited }
  | stopTarget : Moves s .stopTarget { s with tgt := .exited }
  | cut (n m : Nat) : Moves s (.cut n m) { s with
      toTarget := s.toTarget.take n, toSource := s.toSource.take m, linked := false }
  | restart (streaming bulkOpt : Bool) : Moves s (.restart streaming bulkOpt) { s with
      ctl := Control.init (if streaming then .stream else .read), bulkOpt,
      src := .start, tgt := .awaitFirst, toTarget := [], toSource := [], linked := true,
      late := ⟨s.tgt, s.toTarget⟩ :: s.late }
  | commit {fs : List (Change α)} {source : Pfsd}
      (le : s.source.syncEndTid ≤ source.syncEndTid) (lt : source.syncEndTid < maxTid)
      (old : ∀ c ∈ fs, c.tid ≤ s.source.syncEndTid → c ∈ s.fs) :
      Moves s (.commit fs source) { s with fs, source }

section

variable [DecidableEq α] {s s' t : Session α} {a : Action α} {as : List (Action α)}

theorem Session.step_moves (hstep : s.step a = .ok s') : s.Moves a s' := by
  cases a with
  | hello =>
    simp only [Session.step] at hstep
    split at hstep <;> cases hstep
    exact .source trivial (fun _ _ _ => .inl ‹_›) (fun h => by cases h) fun h => h.hello ‹_›
  | negotiate mrecs splitupOpt =>
    simp only [Session.step] at hstep
    split at hstep <;> cases hstep
    · have hkeeps := fun {told} (h : s.Inv told) => h.negotiate ‹_› ‹_› mrecs splitupOpt
      revert hkeeps
      unfold Session.negotiate
      split
      · exact fun hkeeps => .source trivial (fun _ _ h => by cases h) (fun h => by cases h) hkeeps
      · refine fun hkeeps => .source trivial (fun _ _ h => ?_) (fun h => ?_) hkeeps
        · exact .inr ⟨mrecs, splitupOpt, rfl, by cases h; rfl⟩
        · split at h <;> cases h
    · exact .source trivial (fun _ _ h => by cases h) (fun h => by cases h) fun h =>
        h.exit (by simp_all) _
  | batch n timer =>
    simp only [Session.step] at hstep
    split at hstep
    · split at hstep <;> cases hstep
      have hkeeps := fun {told} (h : s.Inv told) => h.batch ‹_› ‹_› timer
      revert hkeeps
      unfold Session.batch
      split <;> exact fun hkeeps => .source trivial (fun _ _ h => by cases h)
        (fun h => by first | exact rfl | cases h) hkeeps
    · cases hstep
  | sendIdle =>
    simp only [Session.step] at hstep
    split at hstep <;> cases hstep
    exact .source trivial (fun _ _ h => by cases h) (fun h => by cases h) fun h => h.sendIdle ‹_›
  | readUpdate =>
    simp only [Session.step] at hstep
    split at hstep <;> cases hstep
    · have hkeeps := fun {told} (h : s.Inv told) => h.endRound ‹_› ‹_›
      revert hkeeps
      unfold Session.endRound
      (repeat' split) <;> exact fun hkeeps => .source trivial (fun _ _ h => by cases h)
        (fun h => by cases h) hkeeps
    · exact .source trivial (fun _ _ h => by cases h) (fun h => by cases h) fun h =>
        h.exit (by simp_all) _
  | wake ok =>
    cases ok <;> simp only [Session.step] at hstep <;> split at hstep <;> cases hstep
    · exact .source trivial (fun _ _ h => by cases h) (fun h => by cases h) fun h =>
        (h.wake ‹_›).2
    · exact .source trivial (fun _ _ h => by cases h) (fun h => by cases h) fun h =>
        (h.wake ‹_›).1
  | targetRead =>
    obtain ⟨m, rest, hq, hw, rfl⟩ := Session.readNext_ok hstep
    exact .read hq hw
  | targetAck =>
    simp only [Session.step] at hstep
    split at hstep <;> cases hstep
    exact .ack ‹_›
  | lateRead i =>
    obtain ⟨w, m, rest, hw, hq, hwaits, t, ht, rfl⟩ := Session.lateRead_ok hstep
    exact .late hw hq hwaits ht
  | stopSource =>
    cases hstep
    exact .stopSource
  | stopTarget =>
    cases hstep
    exact .stopTarget
  | cut n m =>
    cases hstep
    exact .cut n m
  | restart streaming bulkOpt =>
    simp only [Session.step] at hstep
    split at hstep <;> cases hstep
    exact .restart streaming bulkOpt
  | commit fs source =>
    simp only [Session.step] at hstep
    split at hstep
    · next hc =>
      cases hstep
      exact .commit hc.1 hc.2.1 hc.2.2
    · cases hstep

/-- A step keeps the invariant. If it does not move the target by a late SYNC, the target still is
    what it says of itself. -/
theorem Session.Inv.step (h : s.Inv told) (hstep : s.step a = .ok s') : ∃ told', s'.Inv told' ∧
    (told = s.target → (∀ i, a = .lateRead i → s'.target = s.target) → told' = s'.target) := by
  cases Session.step_moves hstep with
  | source _ _ _ keeps => exact ⟨told, keeps h, fun he _ => he⟩
  | read queue waits =>
    obtain ⟨told', hinv, htold⟩ := h.targetRead queue waits
    exact ⟨told', hinv, fun he _ => htold he⟩
  | ack tgt => exact ⟨told, h.targetAck tgt, fun he _ => he⟩
  | late mem queue waits read =>
    exact ⟨told, h.lateRead mem queue waits read, fun he hi => he.trans (hi _ rfl).symm⟩
  | stopSource =>
    exact ⟨told, ⟨h.source, h.target, h.said, fun hex => absurd rfl hex, h.lawful,
      fun _ hex => absurd rfl hex, h.late⟩, fun he _ => he⟩
  | stopTarget =>
    exact ⟨told, ⟨h.source, h.target, h.said, h.ary, .exited _, fun _ _ hex => absurd rfl hex,
      h.late⟩, fun he _ => he⟩
  | cut n m =>
    exact ⟨told, ⟨h.source, h.target, h.said, h.ary, h.lawful.take n,
      fun hl => absurd hl (by simp), h.late⟩, fun he _ => he⟩
  | restart streaming bulkOpt =>
    exact ⟨told, ⟨h.source, h.target, h.said, fun _ _ => Nat.zero_le _, .nil _,
      fun _ _ _ => .start, List.forall_mem_cons.mpr ⟨⟨_, h.lawful⟩, h.late⟩⟩, fun he _ => he⟩
  | commit le lt old =>
    refine ⟨told, ⟨lt, h.target, h.said, fun hne k => (h.ary hne k).trans le, h.lawful.commit le old,
      fun hl hsrc ht => (h.phase hl hsrc ht).commit le old, fun w hw => ?_⟩, fun he _ => he⟩
    obtain ⟨synced, hlawful⟩ := h.late w hw
    exact ⟨synced, hlawful.commit le old⟩

theorem run_session_inv (h : s.Init) (hrun : run Session.step s as = .ok t) :
    ∃ told, t.Inv told := by
  refine @run_inv _ _ _ _ (fun _ _ => True) (fun t => ∃ told, t.Inv told)
    (fun t a t' ht _ hstep => ?_) as s t ⟨_, h.inv⟩ (Along.of_forall (fun _ _ _ => trivial) s) hrun
  obtain ⟨told, hinv⟩ := ht
  obtain ⟨told', hinv', -⟩ := hinv.step hstep
  exact ⟨told', hinv'⟩

/-! ## What moves the target and the source -/

/-- Only a SYNC moves the target, whichever mirror-write reads it. -/
theorem Session.step_target (hstep : s.step a = .ok s') : s'.target = s.target ∨
    ∃ (w : Late α) (tidBeg tidEnd : Nat) (got : List (Change α)) (rest : List (Msg α)),
      (a = .targetRead ∧ w = ⟨s.tgt, s.toTarget⟩ ∨ w ∈ s.late) ∧
      w.tgt = .receiving tidBeg tidEnd got ∧ w.toTarget = .sync :: rest ∧
      s'.target = ⟨s.target.syncBegTid, tidEnd⟩ := by
  cases Session.step_moves hstep with
  | @read m rest queue =>
    rcases s.targetRead_target m rest with heq | ⟨tidBeg, tidEnd, got, ht, rfl, heq⟩
    · exact .inl heq
    · exact .inr ⟨_, tidBeg, tidEnd, got, rest, .inl ⟨rfl, rfl⟩, ht, queue, heq⟩
  | @late _ w m rest _ mem queue _ read =>
    subst read
    rcases Session.targetRead_target _ m rest with heq | ⟨tidBeg, tidEnd, got, htgt, rfl, heq⟩
    · exact .inl heq
    · exact .inr ⟨w, tidBeg, tidEnd, got, rest, .inr mem, htgt, queue, heq⟩
  | source | ack | stopSource | stopTarget | cut | restart | commit => exact .inl rfl

/-- The source never moves back. -/
theorem Session.step_source (hstep : s.step a = .ok s') :
    s.source.syncEndTid ≤ s'.source.syncEndTid := by
  cases Session.step_moves hstep with
  | read =>
    unfold Session.targetRead
    split <;> rfl
  | commit le => exact le
  | source | ack | late | stopSource | stopTarget | cut | restart => rfl

end

/-! ## The header of a round -/

/-- The header of the round the target is in, or will be in with the next record. -/
def TargetPc.header : TargetPc α → List (Msg α) → Option Pfsd
  | .receiving tidBeg tidEnd _, _ => some ⟨tidBeg, tidEnd⟩
  | .awaitHeader, .pfsd p :: _ => some p
  | _, _ => none

theorem TargetPc.header_mono {pc : TargetPc α} {q : List (Msg α)} {p : Pfsd}
    (h : pc.header q = some p) (out : List (Msg α)) : pc.header (q ++ out) = some p := by
  cases pc with
  | awaitHeader =>
    cases q with
    | nil => cases h
    | cons m q => cases m <;> exact h
  | receiving tidBeg tidEnd got => exact h
  | awaitFirst | ack tidEnd | exited => cases h

theorem TargetPc.header_append {pc : TargetPc α} {q out : List (Msg α)} {p : Pfsd}
    (h : pc.header (q ++ out) = some p) :
    pc.header q = some p ∨ pc = .awaitHeader ∧ q = [] ∧ ∃ rest, out = .pfsd p :: rest := by
  cases pc with
  | awaitHeader =>
    cases q with
    | nil =>
      refine .inr ⟨rfl, rfl, ?_⟩
      rw [List.nil_append] at h
      cases out with
      | nil => cases h
      | cons m out => cases m <;> cases h; exact ⟨_, rfl⟩
    | cons m q =>
      left
      cases m <;> exact h
  | receiving tidBeg tidEnd got => exact .inl h
  | awaitFirst | ack tidEnd | exited => cases h

theorem Session.header_targetRead {m : Msg α} {p : Pfsd} (h : s.Inv told)
    (hq : s.toTarget = m :: rest)
    (hp : (s.targetRead m rest).tgt.header rest = some p) : s.tgt.header (m :: rest) = some p := by
  have hlawful := h.lawful
  rw [hq] at hlawful
  unfold Session.targetRead at hp
  split at hp
  · next ht =>
    rw [ht] at hlawful
    cases hlawful
    cases hp
  · next ht =>
    rw [ht]
    exact hp
  · next ht =>
    rw [ht]
    exact hp
  · cases hp
  · cases hp
  · cases hp

section

variable [DecidableEq α] {s s' t : Session α} {a : Action α} {as : List (Action α)}

/-- A header is there until its round ends, and comes from the source's PFS. -/
theorem Session.step_header {p : Pfsd} (h : s.Inv told) (hstep : s.step a = .ok s')
    (hp : s'.tgt.header s'.toTarget = some p) : a.InRound ∧ (s.tgt.header s.toTarget = some p ∨
      ∃ mrecs splitupOpt, a = .negotiate mrecs splitupOpt ∧
        p.syncBegTid = s.source.syncBegTid) := by
  cases Session.step_moves hstep with
  | source round header =>
    refine ⟨round, ?_⟩
    rw [sourceTo_tgt, sourceTo_toTarget] at hp
    by_cases hl : s.linked
    · rw [if_pos hl] at hp
      rcases TargetPc.header_append hp with hp | ⟨ht, -, rest, hrest⟩
      · exact .inl hp
      · -- at a hello the target does not wait for a header
        refine .inr ((header p rest hrest).resolve_left fun hsrc => ?_)
        have hphase := h.phase hl (by simp [hsrc]) (by simp [ht])
        rw [hsrc] at hphase
        rw [hphase.start_inv.1] at ht
        cases ht
    · rw [if_neg hl] at hp
      exact .inl hp
  | read queue =>
    rw [Session.targetRead_toTarget] at hp
    rw [queue]
    exact ⟨trivial, .inl (Session.header_targetRead h queue hp)⟩
  | cut n m =>
    refine ⟨trivial, .inl ?_⟩
    rw [← List.take_append_drop n s.toTarget]
    exact TargetPc.header_mono hp _
  | late | stopSource | commit => exact ⟨trivial, .inl hp⟩
  | stopTarget | ack | restart => cases hp

/-- The header of a round was announced by the source in this round. -/
theorem run_header (hinit : s.Init) (hrun : run Session.step s as = .ok t) {p : Pfsd}
    (hp : t.tgt.header t.toTarget = some p) :
    ∃ as₁ mrecs splitupOpt as₂ u, as = as₁ ++ .negotiate mrecs splitupOpt :: as₂ ∧
      run Session.step s as₁ = .ok u ∧ u.source.syncBegTid = p.syncBegTid ∧
      ∀ b ∈ as₂, b.InRound := by
  induction as using List.reverseRecOn generalizing t p with
  | nil =>
    cases hrun
    rw [hinit.tgt] at hp
    cases hp
  | append_singleton as a ih =>
    obtain ⟨u, hu, hstep⟩ := run_concat_inv hrun
    obtain ⟨told, hinv⟩ := run_session_inv hinit hu
    obtain ⟨hround, hold | ⟨mrecs, splitupOpt, rfl, hbeg⟩⟩ := Session.step_header hinv hstep hp
    · obtain ⟨as₁, mrecs, splitupOpt, as₂, v, rfl, hv, hbeg, hall⟩ := ih hu hold
      refine ⟨as₁, mrecs, splitupOpt, as₂ ++ [a], v, by simp, hv, hbeg, fun b hb => ?_⟩
      rcases List.mem_append.mp hb with hb | hb
      · exact hall b hb
      · rw [List.mem_singleton.mp hb]
        exact hround
    · exact ⟨as, mrecs, splitupOpt, [], u, rfl, hu, hbeg.symm, List.forall_mem_nil _⟩

/-! ## No lost updates -/

/-- A mirror-write that a restart leaves behind has exited, or no SYNC is on its way to it. -/
def Session.Settled (s : Session α) : Action α → Prop
  | .restart _ _ => s.tgt = .exited ∨ .sync ∉ s.toTarget
  | _ => True

/-- No mirror-write of an earlier start reads a SYNC any more. -/
def Session.Calm (s : Session α) : Prop := ∀ w ∈ s.late, w.tgt = .exited ∨ .sync ∉ w.toTarget

theorem Session.Calm.step (h : s.Calm) (ha : s.Settled a) (hstep : s.step a = .ok s') :
    s'.Calm := by
  cases Session.step_moves hstep with
  | @late _ w m _ _ mem queue waits =>
    intro v hv
    rcases List.mem_or_eq_of_mem_set hv with hmem | rfl
    · exact h v hmem
    · refine .inr fun hs => (h w mem).elim (fun hex => ?_) fun hno => hno ?_
      · rw [hex] at waits
        exact waits
      · rw [queue]
        exact List.mem_cons_of_mem m hs
  | restart => exact List.forall_mem_cons.mpr ⟨ha, h⟩
  | read =>
    unfold Session.targetRead
    split <;> exact h
  | source | ack | stopSource | stopTarget | cut | commit => exact h

omit [DecidableEq α] in
theorem Session.Calm.not_sync {w : Late α} {got : List (Change α)} (h : s.Calm) (hw : w ∈ s.late)
    (htgt : w.tgt = .receiving tidBeg tidEnd got) : w.toTarget ≠ .sync :: rest := by
  intro hq
  rcases h w hw with hex | hno
  · rw [htgt] at hex
    cases hex
  · rw [hq] at hno
    exact hno List.mem_cons_self

/-- The target is what it says of itself, in a run in which no SYNC is left behind. -/
theorem run_calm (hinit : s.Init)
    (hsettled : Along Session.step Session.Settled s as) (hrun : run Session.step s as = .ok t) :
    t.Inv t.target ∧ t.Calm := by
  refine @run_inv _ _ _ _ Session.Settled (fun t => t.Inv t.target ∧ t.Calm)
    (fun t a t' ht ha hstep => ⟨?_, ht.2.step ha hstep⟩) as s t
    ⟨hinit.inv, by rw [Session.Calm, hinit.late]; exact List.forall_mem_nil _⟩ hsettled hrun
  obtain ⟨told', hinv, htold⟩ := ht.1.step hstep
  rw [← htold rfl]
  · exact hinv
  · rintro i rfl
    rcases Session.step_target hstep with heq |
      ⟨w, tidBeg, tidEnd, got, rest, ⟨h, -⟩ | hw, htgt, hq, -⟩
    · exact heq
    · cases h
    · exact absurd hq (ht.2.not_sync hw htgt)

end

end

/-- If no restart leaves a SYNC behind, the target moves its sync_end_tid only forward, and only when
    all changes of the source from behind the old one to the new one have come in since the header
    of the round. The source may leave out what is before the sync_beg_tid that it had when it
    announced this round. -/
theorem mirror_no_lost_update {α : Type} [DecidableEq α] {s t t' : Session α} (hinit : s.Init)
    {as : List (Action α)} (hsettled : Along Session.step Session.Settled s as)
    (hrun : run Session.step s as = .ok t) {a : Action α} (hstep : t.step a = .ok t') :
    t.target.syncEndTid ≤ t'.target.syncEndTid ∧
      (t'.target ≠ t.target → ∃ as₁ mrecs splitupOpt as₂ u got,
        as = as₁ ++ .negotiate mrecs splitupOpt :: as₂ ∧ run Session.step s as₁ = .ok u ∧
        (∀ b ∈ as₂, b.InRound) ∧
        t.tgt = .receiving u.source.syncBegTid t'.target.syncEndTid got ∧
        Complete t.fs (max (t.target.syncEndTid + 1) u.source.syncBegTid) t'.target.syncEndTid
          got) := by
  obtain ⟨hinv, hcalm⟩ := run_calm hinit hsettled hrun
  rcases Session.step_target hstep with heq |
    ⟨w, tidBeg, tidEnd, got, rest, ⟨-, rfl⟩ | hw, htgt, hq, htarget⟩
  · exact ⟨by rw [heq], fun hne => absurd heq hne⟩
  · have htgt' : t.tgt = .receiving tidBeg tidEnd got := htgt
    have hq' : t.toTarget = .sync :: rest := hq
    have hheader : t.tgt.header t.toTarget = some ⟨tidBeg, tidEnd⟩ := by
      rw [htgt']
      rfl
    obtain ⟨as₁, mrecs, splitupOpt, as₂, u, has, hu, hbeg, hround⟩ := run_header hinit hrun hheader
    have hlawful := hinv.lawful
    rw [htgt', hq'] at hlawful
    cases hlawful with
    | sync hpromise =>
      rw [htarget]
      refine ⟨hpromise.advance.le, fun _ => ⟨as₁, mrecs, splitupOpt, as₂, u, got, has, hu, hround,
        ?_, ?_⟩⟩
      · rw [htgt', hbeg]
      · rw [hbeg]
        exact hpromise.complete
  · exact absurd hq (hcalm.not_sync hw htgt)

/-- Nothing has been mirrored yet: the source is at 5 and has one change. -/
def fresh : Session Unit where
  fs := [⟨3, ()⟩]
  source := ⟨1, 5⟩
  target := ⟨1, 1⟩
  ctl := Control.init .read
  bulkOpt := true
  src := .exited
  tgt := .exited
  toTarget := []
  toSource := []
  linked := false
  late := []

theorem fresh_init : fresh.Init := ⟨rfl, rfl, rfl, by decide, by decide⟩

/-- A round up to the header. -/
def roundBegin : List (Action Unit) :=
  [.restart false true, .hello, .targetRead, .negotiate [] 0, .targetRead]

theorem mirror_no_lost_update_round :
    ∃ t t', run Session.step fresh (roundBegin ++ [.batch 1 false, .targetRead, .batch 0 false])
        = .ok t ∧ t.step .targetRead = .ok t' ∧ t'.target.syncEndTid = 5 ∧
      ∃ tidBeg got, t.tgt = .receiving tidBeg 5 got ∧
        Complete t.fs (max (t.target.syncEndTid + 1) tidBeg) 5 got := by
  obtain ⟨t, hrun⟩ : ∃ t, run Session.step fresh
      (roundBegin ++ [.batch 1 false, .targetRead, .batch 0 false]) = .ok t := ⟨_, rfl⟩
  obtain ⟨t', hstep⟩ : ∃ t', t.step .targetRead = .ok t' := by
    cases hrun
    exact ⟨_, rfl⟩
  have htarget : t.target = ⟨1, 1⟩ ∧ t'.target = ⟨1, 5⟩ := by
    cases hrun
    cases hstep
    exact ⟨rfl, rfl⟩
  have hsettled : Along Session.step Session.Settled fresh
      (roundBegin ++ [.batch 1 false, .targetRead, .batch 0 false]) := by
    simp [roundBegin, Along, Session.Settled, fresh]
  obtain ⟨as₁, mrecs, splitupOpt, as₂, u, got, -, -, -, htgt, hcomplete⟩ :=
    (mirror_no_lost_update fresh_init hsettled hrun hstep).2 (by simp [htarget])
  rw [htarget.2] at htgt hcomplete
  exact ⟨t, t', hrun, hstep, by rw [htarget.2], _, got, htgt, hcomplete⟩

/-- The link is lost when the SYNC of a round has come through. The source commits and both are
    started again, and when the new round is done, the old mirror-write reads its SYNC. -/
theorem mirror_sync_back :
    ∃ t t', run Session.step fresh (roundBegin ++ [.batch 1 false, .targetRead, .batch 0 false,
        .cut 1 0, .commit [⟨3, ()⟩, ⟨8, ()⟩] ⟨1, 9⟩] ++ roundBegin ++
        [.batch 2 false, .targetRead, .batch 0 false, .targetRead]) = .ok t ∧
      t.step (.lateRead 0) = .ok t' ∧ t.target.syncEndTid = 9 ∧ t'.target.syncEndTid = 5 :=
  ⟨_, _, rfl, rfl, rfl, rfl⟩

/-- The target is never ahead of the source, however often either of them stops. -/
theorem mirror_target_behind {α : Type} [DecidableEq α] {s t : Session α} (hinit : s.Init)
    (hle : s.target.syncEndTid ≤ s.source.syncEndTid) {as : List (Action α)}
    (hrun : run Session.step s as = .ok t) : t.target.syncEndTid ≤ t.source.syncEndTid := by
  refine (@run_inv _ _ _ _ (fun _ _ => True)
    (fun t => (∃ told, t.Inv told) ∧ t.target.syncEndTid ≤ t.source.syncEndTid)
    (fun t a t' ht _ hstep => ?_) as s t ⟨⟨_, hinit.inv⟩, hle⟩
    (Along.of_forall (fun _ _ _ => trivial) s) hrun).2
  obtain ⟨⟨told, hinv⟩, hle⟩ := ht
  obtain ⟨told', hinv', -⟩ := hinv.step hstep
  refine ⟨⟨told', hinv'⟩, ?_⟩
  have hsource := Session.step_source hstep
  rcases Session.step_target hstep with heq | ⟨w, tidBeg, tidEnd, got, rest, hw, htgt, hq, heq⟩
  · rw [heq]
    exact hle.trans hsource
  · have hlawful : ∃ synced, Lawful t.fs t.source.syncEndTid synced w.tgt w.toTarget := by
      rcases hw with ⟨-, rfl⟩ | hw
      · exact ⟨_, hinv.lawful⟩
      · exact hinv.late w hw
    obtain ⟨synced, hlawful⟩ := hlawful
    rw [htgt, hq] at hlawful
    rw [heq]
    exact hlawful.sync_le.trans hsource

theorem mirror_target_behind_round : ∃ t, run Session.step fresh (roundBegin ++
    [.batch 1 false, .targetRead, .batch 0 false, .targetRead]) = .ok t ∧
    t.target.syncEndTid ≤ t.source.syncEndTid := by
  obtain ⟨t, hrun⟩ : ∃ t, run Session.step fresh (roundBegin ++
    [.batch 1 false, .targetRead, .batch 0 false, .targetRead]) = .ok t := ⟨_, rfl⟩
  exact ⟨t, hrun, mirror_target_behind fresh_init (by decide) hrun⟩

/-! ## Deadlocks -/

section

variable {α : Type}

/-- The source waits for a record. -/
def SourcePc.Waits : SourcePc α → Prop
  | .awaitPfsd | .awaitUpdate _ => True
  | .start | .streaming _ _ _ | .idle | .waiting | .exited => False

/-- Each process waits to read from the other one, and nothing is on its way. -/
structure Session.Deadlock (s : Session α) : Prop where
  linked : s.linked
  src : s.src.Waits
  tgt : s.tgt.Waits
  toSource : s.toSource = []
  toTarget : s.toTarget = []

theorem Session.step_interrupted [DecidableEq α] {s s' : Session α} {a : Action α}
    (hs : s.src ≠ .awaitUpdate true) (ha : ¬ a.Expires) (hstep : s.step a = .ok s') :
    s'.src ≠ .awaitUpdate true := by
  cases Session.step_moves hstep with
  | source _ _ timer => exact fun hsrc => ha (timer hsrc)
  | read =>
    unfold Session.targetRead
    split <;> exact hs
  | stopSource | restart => simp
  | ack | late | stopTarget | cut | commit => exact hs

theorem Session.Inv.not_deadlock {s : Session α} {told : Pfsd} (h : s.Inv told)
    (hs : s.src ≠ .awaitUpdate true) : ¬ s.Deadlock := by
  intro hd
  have hsrc : s.src ≠ .exited := fun he => by
    have := hd.src
    rw [he] at this
    exact this
  have htgt : s.tgt ≠ .exited := fun he => by
    have := hd.tgt
    rw [he] at this
    exact this
  have hp := h.phase hd.linked hsrc htgt
  have hw := hd.tgt
  have hws := hd.src
  have hq := hd.toTarget
  have hr := hd.toSource
  generalize s.src = src at *
  generalize s.tgt = tgt at *
  generalize s.toTarget = q at *
  generalize s.toSource = r at *
  cases hp with
  | start | waiting | streaming | idle => exact hws
  | asked p => cases hq
  | told | acked => cases hr
  | interrupted => exact hs rfl
  | ended => simp at hq
  | acking => exact hw

end

/-- In a run in which the time limit does not expire there is no deadlock. -/
theorem mirror_no_deadlock {α : Type} [DecidableEq α] {s t : Session α} (hinit : s.Init)
    {as : List (Action α)} (hexp : ∀ a ∈ as, ¬ a.Expires) (hrun : run Session.step s as = .ok t) :
    ¬ t.Deadlock := by
  have hkeep : ∀ (s : Session α) (a : Action α) (s' : Session α),
      s.src ≠ .awaitUpdate true → ¬ a.Expires → s.step a = .ok s' → s'.src ≠ .awaitUpdate true :=
    fun s a s' hs ha hstep => Session.step_interrupted hs ha hstep
  have hsrc := run_inv hkeep as s t (by rw [hinit.src]; simp)
    (Along.of_forall (fun a ha _ => hexp a ha) s) hrun
  obtain ⟨told, hinv⟩ := run_session_inv hinit hrun
  exact hinv.not_deadlock hsrc

theorem mirror_no_deadlock_round :
    ∃ t, run Session.step fresh (roundBegin ++ [.batch 1 false, .targetRead, .batch 0 false])
      = .ok t ∧ ¬ t.Deadlock := by
  obtain ⟨t, hrun⟩ : ∃ t, run Session.step fresh
      (roundBegin ++ [.batch 1 false, .targetRead, .batch 0 false]) = .ok t := ⟨_, rfl⟩
  exact ⟨t, hrun, mirror_no_deadlock fresh_init (by simp [roundBegin, Action.Expires]) hrun⟩

/-- The time limit expires in the first turn of the bulk loop: the source sends no SYNC, but it
    waits for the acknowledgement. -/
theorem mirror_deadlock :
    ∃ t, run Session.step fresh (roundBegin ++ [.batch 1 true, .targetRead]) = .ok t ∧
      t.Deadlock :=
  ⟨_, rfl, rfl, trivial, trivial, rfl, rfl⟩

end Lh1.Hammer.Mirror
