/-
  The reference counts of transaction states, and what each operation does to them.

  `Inv X e L t` says that the count of every state is what the data structures account for:
  its place on the subq of its parent, its own subq, the trees, messages, relays, the holds of
  link structures and the references in `L` that nothing will drop. `e` is what code in the
  middle of a function has in hand: positive for references it has yet to store or drop,
  negative for references it has dropped and not yet forgotten. `X` is a state that is being
  taken apart, whose relay is still set though it has left its parent.

  One lemma per operation says how `e` changes. The functions of the source are put together
  from these.
-/
import Lh1.Dmsg.Machine

namespace Lh1.Dmsg

open Lh1.Lib

/-! ## What a state is referenced by -/

/-- The references to a state that its own fields account for. -/
def DmsgState.own (s : DmsgState) : Nat :=
  s.root.toNat + (!s.subq.isEmpty).toNat + s.subinserted.toNat

/-- The trees that hold the state. -/
def Trans.inTree (t : Trans) (a : Addr) : Bool :=
  decide (a ∈ t.staterd.map Prod.snd) || decide (a ∈ t.statewr.map Prod.snd)

def relayRefs (h : Store Addr DmsgState) (a : Addr) : Nat :=
  h.total fun _ s => if s.relay = some a then 1 else 0

def msgRefs (ms : Store Nat TransMsg) (a : Addr) : Nat :=
  ms.total fun _ x => if x.state = a then 1 else 0

variable {bs : DmsgState} {f : DmsgState → DmsgState} {h : Store Addr DmsgState} {u : Unit}

theorem relayRefs_modify {a b : Addr} (hf : ∀ s, (f s).relay = s.relay) :
    relayRefs (h.modify a f) b = relayRefs h b :=
  Store.total_modify_eq fun s _ => by rw [hf]

/-- The references to a state from outside of its own fields. -/
def Trans.pointers (t : Trans) (a : Addr) : Nat :=
  (t.inTree a).toNat + msgRefs t.msgs a + relayRefs t.heap a + t.holds.count a

/-- How the state `s` at `a` fits into the heap. -/
structure Shape (X : Option Addr) (h : Store Addr DmsgState) (a : Addr) (s : DmsgState) :
    Prop where
  pos : 0 < s.refs
  up : s.subinserted = true → ∃ p ps, s.parent = some p ∧ h.get p = some ps ∧ a ∈ ps.subq
  down : ∀ c ∈ s.subq, (∃ n, c = .dyn n) ∧
    ∃ cs, h.get c = some cs ∧ cs.parent = some a ∧ cs.subinserted = true
  nodup : s.subq.Nodup
  relay : s.relay ≠ none → s.subinserted = true ∨ X = some a
  ofRoot : ∀ i, a = .root i → s.root = true ∧ s.dying = false ∧ s.aborting = false ∧ s.iocom = i
  ofDyn : ∀ n, a = .dyn n → s.root = false ∧ s.parent ≠ some a

structure Inv (X : Option Addr) (e : Addr → ℤ) (L : List Addr) (t : Trans) : Prop where
  lost : t.lost = L
  bal : ∀ a, (t.heap.valAt DmsgState.refs a : ℤ) =
    t.heap.valAt DmsgState.own a + t.pointers a + L.count a + e a
  shape : ∀ a s, t.heap.get a = some s → Shape X t.heap a s
  rd : ∀ x ∈ t.staterd, (∃ n, x.2 = .dyn n) ∧
    ∀ s, t.heap.get x.2 = some s → s.opposite = true ∧ s.iocom = x.1.1
  wr : ∀ x ∈ t.statewr, x.2 = .dyn x.1.2 ∧
    ∀ s, t.heap.get x.2 = some s → s.opposite = false ∧ s.iocom = x.1.1

variable {X : Option Addr} {e : Addr → ℤ} {L : List Addr} {t t' : Trans} {a b : Addr}
  {s s' : DmsgState}

section

variable (hI : Inv X e L t)
include hI

/-- A state that anything refers to is in the heap. -/
theorem Inv.alive (he : 0 ≤ e a) (h : 0 < t.pointers a + L.count a ∨ 0 < e a) :
    ∃ s, t.heap.get a = some s := by
  cases hg : t.heap.get a with
  | some s => exact ⟨s, rfl⟩
  | none =>
    have := hI.bal a
    rw [Store.valAt_none _ hg, Store.valAt_none _ hg] at this
    omega

/-- The invariant reads neither the mutexes nor the queues. -/
theorem Inv.congr (hh : t'.heap = t.heap) (hm : t'.msgs = t.msgs) (hr : t'.staterd = t.staterd)
    (hw : t'.statewr = t.statewr) (ho : t'.holds = t.holds) (hl : t'.lost = t.lost) :
    Inv X e L t' := by
  refine ⟨hl.trans hI.lost, fun a => ?_, ?_, ?_, ?_⟩
  · have := hI.bal a
    simp only [Trans.pointers, Trans.inTree] at this ⊢
    rw [hh, hm, hr, hw, ho]
    exact this
  · rw [hh]; exact hI.shape
  · rw [hr, hh]; exact hI.rd
  · rw [hw, hh]; exact hI.wr

/-- A change of the heap after which the states of the trees are what the trees say. -/
theorem Inv.reheap {Y : Option Addr} {e' : Addr → ℤ} {h' : Store Addr DmsgState}
    (hopp : ∀ b bs, t.inTree b = true → h'.get b = some bs →
      ∃ bs', t.heap.get b = some bs' ∧ bs.opposite = bs'.opposite ∧ bs.iocom = bs'.iocom)
    (hshape : ∀ b bs, h'.get b = some bs → Shape Y h' b bs)
    (hbal : ∀ b, (h'.valAt DmsgState.refs b : ℤ) = h'.valAt DmsgState.own b +
      Trans.pointers { t with heap := h' } b + L.count b + e' b) :
    Inv Y e' L { t with heap := h' } := by
  refine ⟨hI.lost, hbal, hshape, fun x hx => ⟨(hI.rd x hx).1, fun bs hb => ?_⟩,
    fun x hx => ⟨(hI.wr x hx).1, fun bs hb => ?_⟩⟩
  · obtain ⟨bs', hb', h1, h2⟩ := hopp x.2 bs (by simp [Trans.inTree, List.mem_map_of_mem hx]) hb
    rw [h1, h2]
    exact (hI.rd x hx).2 bs' hb'
  · obtain ⟨bs', hb', h1, h2⟩ := hopp x.2 bs (by simp [Trans.inTree, List.mem_map_of_mem hx]) hb
    rw [h1, h2]
    exact (hI.wr x hx).2 bs' hb'

theorem Inv.of_eq {e' : Addr → ℤ} (h : ∀ a, e' a = e a) : Inv X e' L t := by
  have : e' = e := funext h
  rw [this]
  exact hI

end

/-! ## Updates of one state -/

/-- The update keeps what the trees and the queues of sub-transactions say of a state. -/
structure Keeps (a : Addr) (s s' : DmsgState) : Prop where
  iocom : s'.iocom = s.iocom
  parent : s'.parent = s.parent
  subq : s'.subq = s.subq
  root : s'.root = s.root
  opposite : s'.opposite = s.opposite
  subinserted : s'.subinserted = s.subinserted
  flags : ∀ i, a = .root i → s'.dying = s.dying ∧ s'.aborting = s.aborting

theorem Keeps.of_fields (h : s' = { s with
    scan := s'.scan, relay := s'.relay, rxcmd := s'.rxcmd, txcmd := s'.txcmd, icmd := s'.icmd
    func := s'.func, any := s'.any, refs := s'.refs, rbinserted := s'.rbinserted
    isNew := s'.isNew }) : Keeps a s s' := by
  rw [h]
  exact ⟨rfl, rfl, rfl, rfl, rfl, rfl, fun _ _ => ⟨rfl, rfl⟩⟩

theorem Keeps.own (hk : Keeps a s s') : s'.own = s.own := by
  rw [DmsgState.own, DmsgState.own, hk.root, hk.subq, hk.subinserted]

/-- A state looks to the others as it did. -/
theorem get_modify_keeps (ha : h.get a = some s) (hk : Keeps a s (f s))
    (hb : (h.modify a f).get b = some bs) :
    ∃ bs', h.get b = some bs' ∧ Keeps b bs' bs ∧ (b ≠ a → bs = bs') := by
  rw [Store.get_modify] at hb
  by_cases hba : b = a
  · subst hba
    rw [if_pos rfl, ha] at hb
    cases hb
    exact ⟨s, ha, hk, fun hc => absurd rfl hc⟩
  · rw [if_neg hba] at hb
    exact ⟨bs, hb, .of_fields rfl, fun _ => rfl⟩

theorem exists_get_modify (ha : h.get a = some s) (hk : Keeps a s (f s)) (hb : h.get b = some bs) :
    ∃ bs', (h.modify a f).get b = some bs' ∧ Keeps b bs bs' := by
  rw [Store.get_modify]
  by_cases hba : b = a
  · subst hba
    cases ha.symm.trans hb
    exact ⟨_, by rw [if_pos rfl, ha]; rfl, hk⟩
  · exact ⟨bs, by rw [if_neg hba]; exact hb, .of_fields rfl⟩

/-- A state keeps its place when one of the states changes nothing that others look at. -/
theorem Shape.modify {bs' : DmsgState} (hS : Shape X h b bs) (ha : h.get a = some s)
    (hk : Keeps a s (f s)) (hb : Keeps b bs bs') (hpos : 0 < bs'.refs)
    (hrel : bs'.relay ≠ none → bs'.subinserted = true ∨ X = some b) :
    Shape X (h.modify a f) b bs' where
  pos := hpos
  up := by
    rw [hb.subinserted, hb.parent]
    intro hs
    obtain ⟨p, ps, hp, hps, hmem⟩ := hS.up hs
    obtain ⟨ps', hps', hkp⟩ := exists_get_modify ha hk hps
    exact ⟨p, ps', hp, hps', hkp.subq ▸ hmem⟩
  down := by
    rw [hb.subq]
    intro c hc
    obtain ⟨hdyn, cs, hcs, hpar, hsub⟩ := hS.down c hc
    obtain ⟨cs', hcs', hkc⟩ := exists_get_modify ha hk hcs
    exact ⟨hdyn, cs', hcs', hkc.parent.trans hpar, hkc.subinserted.trans hsub⟩
  nodup := hb.subq ▸ hS.nodup
  relay := hrel
  ofRoot := by
    intro i hi
    obtain ⟨h1, h2, h3, h4⟩ := hS.ofRoot i hi
    exact ⟨hb.root.trans h1, (hb.flags i hi).1.trans h2, (hb.flags i hi).2.trans h3,
      hb.iocom.trans h4⟩
  ofDyn := by
    intro n hn
    rw [hb.root, hb.parent]
    exact hS.ofDyn n hn

/-- An update of one state that may change its count and its relay. -/
theorem Inv.modify {e' : Addr → ℤ} (hI : Inv X e L t) (ha : t.heap.get a = some s)
    (hk : Keeps a s (f s)) (hpos : 0 < (f s).refs)
    (hrel : (f s).relay ≠ none → (f s).subinserted = true ∨ X = some a)
    (he : ∀ b, e' b = e b + (if b = a then ((f s).refs : ℤ) - s.refs else 0) +
      (if s.relay = some b then 1 else 0) - (if (f s).relay = some b then 1 else 0)) :
    Inv X e' L { t with heap := t.heap.modify a f } := by
  refine hI.reheap (fun b bs _ hb => ?_) (fun b bs hb => ?_) fun b => ?_
  · obtain ⟨bs', hb', hkb, -⟩ := get_modify_keeps ha hk hb
    exact ⟨bs', hb', hkb.opposite, hkb.iocom⟩
  · obtain ⟨bs', hb', hkb, hne⟩ := get_modify_keeps ha hk hb
    have hS := hI.shape b bs' hb'
    by_cases hba : b = a
    · subst hba
      rw [Store.get_modify, if_pos rfl, ha] at hb
      cases hb
      exact (hI.shape b s ha).modify ha hk hk hpos hrel
    · obtain rfl := hne hba
      exact hS.modify ha hk hkb hS.pos hS.relay
  · have hbal := hI.bal b
    have hrel := Store.total_modify f (fun _ s => if s.relay = some b then 1 else 0) ha
    have heb := he b
    have hown := hk.own
    simp only [Trans.pointers, Trans.inTree, relayRefs] at hbal hrel ⊢
    rw [Store.valAt_modify f _ b ha, Store.valAt_modify f _ b ha, heb]
    by_cases hb : b = a
    · subst hb
      rw [Store.valAt_some _ ha, Store.valAt_some _ ha] at hbal
      simp only [if_true]
      split_ifs at hrel ⊢ <;> omega
    · simp only [if_neg hb]
      split_ifs at hrel ⊢ <;> omega

/-- One reference to `a`. -/
def one (a : Addr) : Addr → ℤ := fun b => if b = a then 1 else 0

/-- An update that changes neither the count nor the relay. -/
structure Inert (a : Addr) (s s' : DmsgState) : Prop extends Keeps a s s' where
  refs : s'.refs = s.refs
  relay : s'.relay = s.relay

theorem Inert.of_fields (h : s' = { s with
    scan := s'.scan, rxcmd := s'.rxcmd, txcmd := s'.txcmd, icmd := s'.icmd, func := s'.func
    any := s'.any, rbinserted := s'.rbinserted, isNew := s'.isNew }) : Inert a s s' := by
  refine ⟨.of_fields ?_, ?_, ?_⟩ <;> rw [h]

section

variable (hI : Inv X e L t)
include hI

theorem Inv.update_inert (h : update a f t = .ok (u, t'))
    (hf : ∀ s, t.heap.get a = some s → Inert a s (f s)) : Inv X e L t' := by
  obtain ⟨⟨s, hs⟩, rfl⟩ := update_ok.mp h
  have hi := hf s hs
  have hS := hI.shape a s hs
  refine hI.modify hs hi.toKeeps (hi.refs ▸ hS.pos) ?_ ?_
  · rw [hi.relay, hi.subinserted]
    exact hS.relay
  · intro b
    rw [hi.refs, hi.relay]
    split_ifs <;> omega

theorem Inv.hold (h : dmsgStateHold a t = .ok (u, t')) : Inv X (e + one a) L t' := by
  obtain ⟨⟨s, hs⟩, rfl⟩ := update_ok.mp h
  refine hI.modify hs (.of_fields rfl) (Nat.succ_pos _)
    (hI.shape a s hs).relay fun b => ?_
  simp only [Pi.add_apply, one]
  split_ifs <;> omega

/-- The relay of a sub-transaction is set: the reference in hand is stored. -/
theorem Inv.setRelay (hs : t.heap.get a = some s) (hn : s.relay = none)
    (hsub : s.subinserted = true)
    (h : update a (fun s => { s with relay := some b }) t = .ok (u, t')) :
    Inv X (e - one b) L t' := by
  obtain ⟨-, rfl⟩ := update_ok.mp h
  refine hI.modify hs (.of_fields rfl) (hI.shape a s hs).pos
    (fun _ => Or.inl hsub) fun c => ?_
  simp only [Pi.sub_apply, one, hn, Option.some.injEq, @eq_comm _ b c]
  split_ifs <;> simp_all

theorem Inv.clearRelay (hs : t.heap.get a = some s) (hr : s.relay = some b)
    (h : update a (fun s => { s with relay := none }) t = .ok (u, t')) :
    Inv X (e + one b) L t' := by
  obtain ⟨-, rfl⟩ := update_ok.mp h
  refine hI.modify hs (.of_fields rfl) (hI.shape a s hs).pos
    (fun hc => absurd rfl hc) fun c => ?_
  simp only [Pi.add_apply, one, hr, Option.some.injEq, @eq_comm _ b c]
  split_ifs <;> simp_all

end

/-! ## Freeing -/

/-- A state with no sub-transactions that has left its parent can go. -/
theorem Shape.erase (hh : ∀ a s, h.get a = some s → Shape X h a s) (ha : h.get a = some s)
    (hq : s.subq = []) (hsub : s.subinserted = false) (hb : (h.erase a).get b = some bs) :
    Shape X (h.erase a) b bs := by
  rw [Store.get_erase] at hb
  by_cases hba : b = a
  · rw [if_pos hba] at hb
    cases hb
  · rw [if_neg hba] at hb
    have hS := hh b bs hb
    refine { hS with up := fun hs => ?_, down := fun c hc => ?_ }
    · obtain ⟨p, ps, hp, hps, hmem⟩ := hS.up hs
      refine ⟨p, ps, hp, ?_, hmem⟩
      rw [Store.get_erase, if_neg]
      · exact hps
      · rintro rfl
        rw [ha] at hps
        cases hps
        rw [hq] at hmem
        cases hmem
    · obtain ⟨hdyn, cs, hcs, hpar, hsubc⟩ := hS.down c hc
      refine ⟨hdyn, cs, ?_, hpar, hsubc⟩
      rw [Store.get_erase, if_neg]
      · exact hcs
      · rintro rfl
        rw [ha] at hcs
        cases hcs
        rw [hsub] at hsubc
        cases hsubc

theorem Inv.erase (hI : Inv X e L t) (ha : t.heap.get a = some s) (hrefs : s.refs = 1)
    (hroot : s.root = false) (hq : s.subq = []) (hsub : s.subinserted = false)
    (hrel : s.relay = none) : Inv X (e - one a) L { t with heap := t.heap.erase a } := by
  refine hI.reheap (fun b bs _ hb => ?_) (fun b bs hb => Shape.erase hI.shape ha hq hsub hb)
    fun b => ?_
  · rw [Store.get_erase] at hb
    split at hb
    · cases hb
    · exact ⟨bs, hb, rfl, rfl⟩
  have hbal := hI.bal b
  have htot := Store.total_erase (fun _ s => if s.relay = some b then 1 else 0) ha
  simp only [Trans.pointers, Trans.inTree, relayRefs, hrel, reduceCtorEq, if_false] at hbal htot ⊢
  rw [Store.valAt_erase, Store.valAt_erase]
  simp only [Pi.sub_apply, one]
  by_cases hb : b = a
  · subst hb
    rw [Store.valAt_some _ ha, Store.valAt_some _ ha, DmsgState.own, hroot, hq, hsub] at hbal
    simp only [if_true, Bool.toNat_false, List.isEmpty_nil, Bool.not_true] at hbal ⊢
    omega
  · simp only [if_neg hb]
    omega

theorem dmsgStateDrop_ok (h : dmsgStateDrop a t = .ok (u, t')) :
    ∃ s, t.heap.get a = some s ∧ 0 < s.refs ∧
      ((s.refs ≠ 1 ∧
          t' = { t with heap := t.heap.modify a fun s => { s with refs := s.refs - 1 } }) ∨
        (s.refs = 1 ∧ s.root = false ∧ s.subinserted = false ∧ s.subq = [] ∧
          t' = { t with heap := t.heap.erase a })) := by
  simp only [dmsgStateDrop, bind_ok_iff, deref_ok, check_ok, update_ok, whenT_ok,
    dmsgStateFree, modifyT_ok] at h
  obtain ⟨s, _, ⟨hs, rfl⟩, _, _, ⟨hpos, rfl⟩, _, _, ⟨-, rfl⟩, h⟩ := h
  refine ⟨s, hs, hpos, ?_⟩
  rcases h with ⟨hone, s', _, ⟨hs', rfl⟩, _, _, ⟨⟨hroot, hsub, -⟩, rfl⟩, _, _, ⟨hq, rfl⟩, _, _,
    ⟨-, rfl⟩, rfl⟩ | ⟨hne, rfl⟩
  · rw [Store.get_modify_self, hs] at hs'
    cases hs'
    exact Or.inr ⟨hone, hroot, hsub, hq, by rw [Store.erase_modify]⟩
  · exact Or.inl ⟨hne, rfl⟩

theorem drop_msgs (h : dmsgStateDrop a t = .ok (u, t')) : t'.msgs = t.msgs := by
  obtain ⟨s, -, -, ⟨-, rfl⟩ | ⟨-, -, -, -, rfl⟩⟩ := dmsgStateDrop_ok h <;> rfl

/-- Dropping a reference. The state that is being taken apart must have another one. -/
theorem Inv.drop (hI : Inv X e L t) (h : dmsgStateDrop a t = .ok (u, t'))
    (hX : X = some a → ∀ s, t.heap.get a = some s → s.refs ≠ 1) : Inv X (e - one a) L t' := by
  obtain ⟨s, hs, hpos, hcase⟩ := dmsgStateDrop_ok h
  have hS := hI.shape a s hs
  rcases hcase with ⟨hne, rfl⟩ | ⟨hone, hroot, hsub, hq, rfl⟩
  · refine hI.modify hs (.of_fields rfl) ?_ hS.relay fun b => ?_
    · dsimp only
      omega
    · simp only [Pi.sub_apply, one]
      split_ifs <;> omega
  · refine hI.erase hs hone hroot hq hsub ?_
    by_contra hr
    rcases hS.relay hr with hc | hc
    · rw [hsub] at hc
      cases hc
    · exact hX hc s hs hone

/-! ## Messages, mutexes and holds -/

section Other

variable {env : Env} {m : Nat} {x : TransMsg}

section

variable (hI : Inv X e L t)
include hI

theorem Inv.lock {mx : Mutex} (h : lock env mx t = .ok (u, t')) : Inv X e L t' := by
  rw [lock_ok h]
  exact hI.congr rfl rfl rfl rfl rfl rfl

theorem Inv.unlock {mx : Mutex} (h : unlock env mx t = .ok (u, t')) : Inv X e L t' := by
  rw [unlock_ok h]
  exact hI.congr rfl rfl rfl rfl rfl rfl

/-- Only the messages change, and with them the number of messages of each state. -/
theorem Inv.msgs {ms : Store Nat TransMsg} {e' : Addr → ℤ}
    (he : ∀ b, e' b + msgRefs ms b = e b + msgRefs t.msgs b) :
    Inv X e' L { t with msgs := ms } := by
  refine ⟨hI.lost, fun b => ?_, hI.shape, hI.rd, hI.wr⟩
  have hbal := hI.bal b
  have heb := he b
  simp only [Trans.pointers, Trans.inTree] at hbal ⊢
  omega

theorem Inv.newMsg (h : newMsg env x t = .ok (m, t')) : Inv X (e - one x.state) L t' := by
  obtain ⟨-, hnone, rfl⟩ := newMsg_ok.mp h
  refine hI.msgs fun b => ?_
  rw [msgRefs, Store.total_insert _ _ hnone, ← msgRefs]
  simp only [Pi.sub_apply, one, @eq_comm _ x.state b]
  split_ifs <;> omega

theorem Inv.eraseMsg (hm : t.msgs.get m = some x) :
    Inv X (e + one x.state) L { t with msgs := t.msgs.erase m } := by
  refine hI.msgs fun b => ?_
  have := Store.total_erase (fun _ x => if x.state = b then 1 else 0) hm
  simp only [Pi.add_apply, one, msgRefs, @eq_comm _ x.state b] at this ⊢
  split_ifs at this ⊢ <;> omega

theorem Inv.rebind {f : TransMsg → TransMsg} (hm : t.msgs.get m = some x)
    (h : updMsg m f t = .ok (u, t')) : Inv X (e + one x.state - one (f x).state) L t' := by
  obtain ⟨-, rfl⟩ := updMsg_ok.mp h
  refine hI.msgs fun b => ?_
  have := Store.total_modify f (fun _ x => if x.state = b then 1 else 0) hm
  simp only [Pi.add_apply, Pi.sub_apply, one, msgRefs, @eq_comm _ x.state b,
    @eq_comm _ (f x).state b] at this ⊢
  split_ifs at this ⊢ <;> omega

theorem Inv.updMsg {f : TransMsg → TransMsg} (h : updMsg m f t = .ok (u, t'))
    (hf : ∀ x, (f x).state = x.state) : Inv X e L t' := by
  obtain ⟨⟨x, hx⟩, -⟩ := updMsg_ok.mp h
  have := hI.rebind hx h
  rw [hf, add_sub_cancel_right] at this
  exact this

theorem Inv.holdX (h : holdX a t = .ok (u, t')) : Inv X e L t' := by
  simp only [Dmsg.holdX, bind_ok_iff, modifyT_ok] at h
  obtain ⟨_, t1, h1, rfl⟩ := h
  have hI1 := hI.hold h1
  refine ⟨hI1.lost, fun b => ?_, hI1.shape, hI1.rd, hI1.wr⟩
  have hbal := hI1.bal b
  simp only [Trans.pointers, Trans.inTree, Pi.add_apply, one, List.count_cons, beq_iff_eq,
    @eq_comm _ a b] at hbal ⊢
  split_ifs at hbal ⊢ <;> omega

end

theorem Inv.dropX (hI : Inv none e L t) (h : dropX a t = .ok (u, t')) : Inv none e L t' := by
  simp only [Dmsg.dropX, bind_ok_iff] at h
  obtain ⟨_, t1, h1, h2⟩ := h
  split at h1
  · rename_i hmem
    cases h1
    have hI1 : Inv none (e + one a) L { t with holds := t.holds.erase a } := by
      refine ⟨hI.lost, fun b => ?_, hI.shape, hI.rd, hI.wr⟩
      have hbal := hI.bal b
      have hcount : (t.holds.erase a).count b + (if b = a then 1 else 0) = t.holds.count b := by
        rw [List.count_erase]
        have : b = a → 0 < t.holds.count b := fun hb => List.count_pos_iff.mpr (hb ▸ hmem)
        split_ifs <;> simp_all
      simp only [Trans.pointers, Trans.inTree, Pi.add_apply, one] at hbal ⊢
      split_ifs at hcount ⊢ <;> omega
    have := hI1.drop h2 (fun hc => by cases hc)
    rw [add_sub_cancel_right] at this
    exact this
  · cases h1

theorem Inv.freeLocked (hI : Inv none e L t) (h : dmsgMsgFreeLocked m t = .ok (u, t')) :
    Inv none e L t' := by
  simp only [dmsgMsgFreeLocked, bind_ok_iff, getMsg_ok, modifyT_ok] at h
  obtain ⟨x, t, ⟨hx, rfl⟩, _, t1, h1, rfl⟩ := h
  have hI1 := hI.drop h1 (fun hc => by cases hc)
  have := hI1.eraseMsg (drop_msgs h1 ▸ hx)
  rw [sub_add_cancel] at this
  exact this

theorem Inv.msgFree (hI : Inv none e L t) (h : dmsgMsgFree env m t = .ok (u, t')) :
    Inv none e L t' := by
  simp only [dmsgMsgFree, bind_ok_iff, getMsg_ok, deref_ok] at h
  obtain ⟨x, _, ⟨-, rfl⟩, s, _, ⟨-, rfl⟩, _, t1, h1, _, t2, h2, h3⟩ := h
  exact ((hI.lock h1).freeLocked h2).unlock h3

end Other

/-! ## Trees -/

theorem mem_rbErase {tree : StateTree} {x : (Nat × Nat) × Addr} :
    x ∈ rbErase tree a ↔ x ∈ tree ∧ x.2 ≠ a := by
  simp [rbErase]

theorem mem_map_rbErase {tree : StateTree} :
    b ∈ (rbErase tree a).map Prod.snd ↔ b ∈ tree.map Prod.snd ∧ b ≠ a := by
  simp only [List.mem_map, mem_rbErase]
  constructor
  · rintro ⟨x, ⟨hx, hne⟩, rfl⟩
    exact ⟨⟨x, hx, rfl⟩, hne⟩
  · rintro ⟨⟨x, hx, rfl⟩, hne⟩
    exact ⟨x, ⟨hx, hne⟩, rfl⟩

/-- A change of the trees, paid for by what is in hand. -/
theorem Inv.retree {e' : Addr → ℤ} {rd wr : StateTree} (hI : Inv X e L t)
    (hr : ∀ x ∈ rd, (∃ n, x.2 = .dyn n) ∧
      ∀ s, t.heap.get x.2 = some s → s.opposite = true ∧ s.iocom = x.1.1)
    (hw : ∀ x ∈ wr, x.2 = .dyn x.1.2 ∧
      ∀ s, t.heap.get x.2 = some s → s.opposite = false ∧ s.iocom = x.1.1)
    (he : ∀ b, ((Trans.inTree { t with staterd := rd, statewr := wr } b).toNat : ℤ) + e' b =
      (t.inTree b).toNat + e b) :
    Inv X e' L { t with staterd := rd, statewr := wr } := by
  refine ⟨hI.lost, fun b => ?_, hI.shape, hr, hw⟩
  have hbal := hI.bal b
  have heb := he b
  simp only [Trans.pointers] at hbal ⊢
  omega

/-- A state is in one tree at most, the one its OPPOSITE flag says. -/
theorem Inv.tree_disjoint (hI : Inv X e L t) (hs : t.heap.get a = some s)
    (hr : a ∈ t.staterd.map Prod.snd) (hw : a ∈ t.statewr.map Prod.snd) : False := by
  obtain ⟨x, hx, rfl⟩ := List.mem_map.mp hr
  obtain ⟨y, hy, hyx⟩ := List.mem_map.mp hw
  have h1 := ((hI.rd x hx).2 s hs).1
  have h2 := ((hI.wr y hy).2 s (hyx ▸ hs)).1
  rw [h1] at h2
  cases h2

theorem rbRemove_ok {wr : Bool} (h : rbRemove wr a t = .ok (u, t')) :
    (a ∈ t.statewr.map Prod.snd ∧ t' = { t with statewr := rbErase t.statewr a }) ∨
    (a ∈ t.staterd.map Prod.snd ∧ t' = { t with staterd := rbErase t.staterd a }) := by
  unfold rbRemove at h
  split at h
  · split at h
    · rename_i hmem
      cases h
      exact Or.inl ⟨hmem, rfl⟩
    · cases h
  · split at h
    · rename_i hmem
      cases h
      exact Or.inr ⟨hmem, rfl⟩
    · cases h

theorem rbRemove_heap {wr : Bool} (h : rbRemove wr a t = .ok (u, t')) :
    t'.heap = t.heap ∧ t'.msgs = t.msgs := by
  rcases rbRemove_ok h with ⟨-, rfl⟩ | ⟨-, rfl⟩ <;> exact ⟨rfl, rfl⟩

theorem toNat_leave {x y : Bool} (hx : x = (y && decide (b ≠ a))) (hy : b = a → y = true) :
    (x.toNat : ℤ) + (e + one a) b = y.toNat + e b := by
  simp only [Pi.add_apply, one]
  by_cases hb : b = a
  · rw [hx, hy hb]
    simp [hb]
    omega
  · simp [hx, hb]

/-- A state leaves its tree, and the reference of the tree comes into hand. -/
theorem Inv.rbRemove {wr : Bool} (hI : Inv X e L t) (hs : t.heap.get a = some s)
    (h : rbRemove wr a t = .ok (u, t')) :
    Inv X (e + one a) L t' ∧ t'.inTree a = false ∧ t'.heap = t.heap ∧ t'.msgs = t.msgs := by
  have hdis := hI.tree_disjoint hs
  rcases rbRemove_ok h with ⟨hmem, rfl⟩ | ⟨hmem, rfl⟩
  · have hnr : a ∉ t.staterd.map Prod.snd := fun hr => hdis hr hmem
    have hin : ∀ b, Trans.inTree { t with statewr := rbErase t.statewr a } b =
        (t.inTree b && decide (b ≠ a)) := by
      intro b
      simp only [Trans.inTree, mem_map_rbErase]
      by_cases hb : b = a <;> simp [hb, hnr]
    refine ⟨hI.retree hI.rd (fun x hx => hI.wr x (mem_rbErase.mp hx).1) fun b =>
      toNat_leave (hin b) fun hb => ?_, by simp [hin], rfl, rfl⟩
    simp [Trans.inTree, hb, hmem]
  · have hnw : a ∉ t.statewr.map Prod.snd := fun hw => hdis hmem hw
    have hin : ∀ b, Trans.inTree { t with staterd := rbErase t.staterd a } b =
        (t.inTree b && decide (b ≠ a)) := by
      intro b
      simp only [Trans.inTree, mem_map_rbErase]
      by_cases hb : b = a <;> simp [hb, hnw]
    refine ⟨hI.retree (fun x hx => hI.rd x (mem_rbErase.mp hx).1) hI.wr fun b =>
      toNat_leave (hin b) fun hb => ?_, by simp [hin], rfl, rfl⟩
    simp [Trans.inTree, hb, hmem]

theorem Inv.rbUnlink {wr c r : Bool} (hI : Inv X e L t) (hs : t.heap.get a = some s)
    (h : rbUnlink wr c r a s' t = .ok (u, t')) :
    Inv X (e + one a) L t' ∧ t'.inTree a = false ∧ t'.msgs = t.msgs ∧
      t'.heap = t.heap.modify a fun s => { s with rbinserted := false } := by
  simp only [Dmsg.rbUnlink, bind_ok_iff, check_ok] at h
  obtain ⟨_, t, ⟨-, rfl⟩, _, t, ⟨-, rfl⟩, _, t1, h1, h2⟩ := h
  obtain ⟨hI1, hin, hheap, hmsgs⟩ := hI.rbRemove hs h1
  refine ⟨hI1.update_inert h2 fun s _ => ?_, ?_, ?_, ?_⟩
  · exact .of_fields rfl
  all_goals
    obtain ⟨-, rfl⟩ := update_ok.mp h2
  · exact hin
  · exact hmsgs
  · rw [hheap]

/-! ## Leaving the parent -/

/-- What `dmsg_subq_delete` does to the parent and to the state. -/
def subqParent (a : Addr) (ps : DmsgState) : DmsgState :=
  { ps with scan := if ps.scan = some a then none else ps.scan, subq := ps.subq.erase a }

def subqGone (s : DmsgState) : DmsgState := { s with subinserted := false, parent := none }

section Unlink

variable {p : Addr} {ps : DmsgState}

theorem get_unlink {h : Store Addr DmsgState} (hs : h.get a = some s) (hps : h.get p = some ps)
    (hne : p ≠ a) (b : Addr) : ((h.modify p (subqParent a)).modify a subqGone).get b =
      if b = a then some (subqGone s) else if b = p then some (subqParent a ps) else h.get b := by
  rw [Store.get_modify, Store.get_modify]
  by_cases hb : b = a
  · subst hb
    rw [if_pos rfl, if_pos rfl, if_neg hne.symm, hs]
    rfl
  · rw [if_neg hb, if_neg hb]
    by_cases hbp : b = p
    · subst hbp
      rw [if_pos rfl, if_pos rfl, hps]
      rfl
    · rw [if_neg hbp, if_neg hbp]

/-- The states that are still on a queue keep their parents. -/
theorem Shape.unlink {h : Store Addr DmsgState}
    (hh : ∀ a s, h.get a = some s → Shape none h a s) (hs : h.get a = some s)
    (hps : h.get p = some ps) (hpar : s.parent = some p) (hsub : s.subinserted = true)
    {bs : DmsgState} (hb : ((h.modify p (subqParent a)).modify a subqGone).get b = some bs) :
    Shape (some a) ((h.modify p (subqParent a)).modify a subqGone) b bs := by
  have hSa := hh a s hs
  have hSp := hh p ps hps
  have hmem : a ∈ ps.subq := by
    obtain ⟨q, qs, hq, hqs, hmem⟩ := hSa.up hsub
    rw [hpar] at hq
    cases hq
    rw [hps] at hqs
    cases hqs
    exact hmem
  obtain ⟨n, rfl⟩ := (hSp.down a hmem).1
  have hne : p ≠ .dyn n := fun hc => (hSa.ofDyn n rfl).2 (hpar.trans (congrArg some hc))
  have hget := get_unlink hs hps hne
  -- what the old shape says of the queue of some state holds of what is left of it
  have hdown : ∀ (q : Addr) (qs : DmsgState), h.get q = some qs → ∀ c ∈ qs.subq, c ≠ .dyn n →
      (∃ k, c = .dyn k) ∧ ∃ cs, ((h.modify p (subqParent (.dyn n))).modify (.dyn n) subqGone).get c =
        some cs ∧ cs.parent = some q ∧ cs.subinserted = true := by
    intro q qs hq c hc hcn
    obtain ⟨hdyn, cs, hcs, hpc, hsc⟩ := (hh q qs hq).down c hc
    refine ⟨hdyn, ?_⟩
    rw [hget c, if_neg hcn]
    by_cases hcp : c = p
    · subst hcp
      rw [hps] at hcs
      cases hcs
      exact ⟨_, if_pos rfl, hpc, hsc⟩
    · exact ⟨cs, by rw [if_neg hcp]; exact hcs, hpc, hsc⟩
  have hup : ∀ (q : Addr) (qs : DmsgState), h.get q = some qs → q ≠ .dyn n →
      qs.subinserted = true → ∃ r rs, qs.parent = some r ∧
        ((h.modify p (subqParent (.dyn n))).modify (.dyn n) subqGone).get r = some rs ∧
        q ∈ rs.subq := by
    intro q qs hq hqn hqs
    obtain ⟨r, rs, hr, hrs, hqr⟩ := (hh q qs hq).up hqs
    refine ⟨r, ?_⟩
    rw [hget r]
    by_cases hrn : r = .dyn n
    · subst hrn
      rw [hs] at hrs
      cases hrs
      exact ⟨_, hr, if_pos rfl, hqr⟩
    · rw [if_neg hrn]
      by_cases hrp : r = p
      · subst hrp
        rw [hps] at hrs
        cases hrs
        exact ⟨_, hr, if_pos rfl, (List.mem_erase_of_ne hqn).mpr hqr⟩
      · exact ⟨rs, hr, by rw [if_neg hrp]; exact hrs, hqr⟩
  rw [hget b] at hb
  by_cases hbn : b = .dyn n
  · subst hbn
    rw [if_pos rfl] at hb
    cases hb
    refine ⟨hSa.pos, fun hc => (by cases hc), fun c hc => ?_, hSa.nodup, fun _ => Or.inr rfl,
      hSa.ofRoot, fun k hk => ⟨(hSa.ofDyn k hk).1, fun hc => by cases hc⟩⟩
    refine hdown _ s hs c hc ?_
    rintro rfl
    obtain ⟨-, cs, hcs, hpc, -⟩ := hSa.down _ hc
    rw [hs] at hcs
    cases hcs
    exact (hSa.ofDyn n rfl).2 hpc
  · rw [if_neg hbn] at hb
    by_cases hbp : b = p
    · subst hbp
      rw [if_pos rfl] at hb
      cases hb
      refine ⟨hSp.pos, fun hc => hup b ps hps hbn hc, fun c hc => ?_, hSp.nodup.erase _,
        fun hr => Or.inl ((hSp.relay hr).resolve_right (fun hc => by cases hc)),
        hSp.ofRoot, hSp.ofDyn⟩
      obtain ⟨hcn, hc'⟩ := (hSp.nodup.mem_erase_iff).mp hc
      exact hdown b ps hps c hc' hcn
    · rw [if_neg hbp] at hb
      have hSb := hh b bs hb
      refine ⟨hSb.pos, fun hc => hup b bs hb hbn hc, fun c hc => hdown b bs hb c hc ?_,
        hSb.nodup, fun hr => Or.inl ((hSb.relay hr).resolve_right (fun hc => by cases hc)),
        hSb.ofRoot, hSb.ofDyn⟩
      rintro rfl
      obtain ⟨-, cs, hcs, hpc, -⟩ := hSb.down _ hc
      rw [hs] at hcs
      cases hcs
      rw [hpar] at hpc
      cases hpc
      exact hbp rfl

/-- The references of the parent's queue, and of the queue to the parent, come into hand. -/
theorem Inv.unlink {e' : Addr → ℤ} (hI : Inv none e L t) (hs : t.heap.get a = some s)
    (hps : t.heap.get p = some ps) (hpar : s.parent = some p) (hsub : s.subinserted = true)
    (hne : p ≠ a) (hmem : a ∈ ps.subq)
    (he : ∀ b, e' b = e b + (if b = a then 1 else 0) +
      (if b = p ∧ ps.subq.erase a = [] then 1 else 0)) :
    Inv (some a) e' L { t with heap := (t.heap.modify p (subqParent a)).modify a subqGone } := by
  have hs' : (t.heap.modify p (subqParent a)).get a = some s := by
    rw [Store.get_modify_of_ne _ _ hne.symm, hs]
  have hget := get_unlink hs hps hne
  refine hI.reheap (fun b bs _ hb => ?_)
    (fun b bs hb => Shape.unlink hI.shape hs hps hpar hsub hb) fun b => ?_
  · rw [hget b] at hb
    split_ifs at hb with h1 h2
    · cases hb; exact ⟨s, h1 ▸ hs, rfl, rfl⟩
    · cases hb; exact ⟨ps, h2 ▸ hps, rfl, rfl⟩
    · exact ⟨bs, hb, rfl, rfl⟩
  · have hbal := hI.bal b
    have hrel : relayRefs ((t.heap.modify p (subqParent a)).modify a subqGone) b =
        relayRefs t.heap b := by
      rw [relayRefs_modify (f := subqGone) fun _ => rfl,
        relayRefs_modify (f := subqParent a) fun _ => rfl]
    have hq : ps.subq.isEmpty = false := List.isEmpty_eq_false_iff.mpr (List.ne_nil_of_mem hmem)
    simp only [Trans.pointers, Trans.inTree] at hbal ⊢
    rw [Store.valAt_modify subqGone _ b hs', Store.valAt_modify subqGone _ b hs',
      Store.valAt_modify _ _ b hps, Store.valAt_modify _ _ b hps, hrel]
    rw [he b]
    by_cases hba : b = a
    · subst hba
      rw [Store.valAt_some _ hs, Store.valAt_some _ hs] at hbal
      simp only [if_true, hne.symm, false_and, if_false, DmsgState.own, subqGone, hsub,
        Bool.toNat_true, Bool.toNat_false] at hbal ⊢
      omega
    · simp only [if_neg hba]
      by_cases hbp : b = p
      · subst hbp
        rw [Store.valAt_some _ hps, Store.valAt_some _ hps] at hbal
        simp only [if_true, true_and, DmsgState.own, subqParent, hq, Bool.not_false,
          Bool.toNat_true] at hbal ⊢
        by_cases hemp : ps.subq.erase a = []
        · rw [if_pos hemp, hemp]
          simp only [List.isEmpty_nil, Bool.not_true, Bool.toNat_false]
          omega
        · rw [if_neg hemp, List.isEmpty_eq_false_iff.mpr hemp]
          simp only [Bool.not_false, Bool.toNat_true]
          omega
      · simp only [hbp, false_and, if_false]
        omega

theorem Inv.exempt (hI : Inv none e L t) (a : Addr) : Inv (some a) e L t := by
  refine ⟨hI.lost, hI.bal, fun b bs hb => ?_, hI.rd, hI.wr⟩
  have hS := hI.shape b bs hb
  exact { hS with relay := fun hr => Or.inl ((hS.relay hr).resolve_right fun hc => by cases hc) }

/-- A state with a message, or with a reference in hand, is not freed when it leaves its
    parent. -/
theorem Inv.subqDelete {u : Unit} (hI : Inv none e L t) (he : 0 ≤ e a)
    (hmore : 0 < msgRefs t.msgs a ∨ 0 < e a) (h : dmsgSubqDelete a t = .ok (u, t')) :
    Inv (some a) e L t' ∧ t'.msgs = t.msgs := by
  simp only [dmsgSubqDelete, bind_ok_iff, deref_ok] at h
  obtain ⟨s, t, ⟨hs, rfl⟩, h⟩ := h
  split at h
  case isFalse =>
    obtain ⟨-, rfl⟩ := check_ok.mp h
    exact ⟨hI.exempt a, rfl⟩
  rename_i hsub
  simp only [bind_ok_iff, nonNull_ok, update_ok, deref_ok] at h
  obtain ⟨p, t, ⟨hpar, rfl⟩, _, _, ⟨⟨ps, hps⟩, rfl⟩, _, _, ⟨-, rfl⟩, ps', _, ⟨hps', rfl⟩, _, t1,
    h1, h2⟩ := h
  have hSa := hI.shape a s hs
  obtain ⟨q, qs, hq, hqs, hmem⟩ := hSa.up hsub
  rw [hpar] at hq
  cases hq
  rw [hps] at hqs
  cases hqs
  have hne : p ≠ a := by
    rintro rfl
    obtain ⟨n, rfl⟩ := ((hI.shape p ps hps).down p hmem).1
    exact (hSa.ofDyn n rfl).2 hpar
  -- the state and its parent after the first two assignments
  have hget := get_unlink hs hps hne
  have hp1 := hget p
  rw [if_neg hne, if_pos rfl] at hp1
  have hps'' : ps' = subqParent a ps := Option.some.inj (hps'.symm.trans hp1)
  have ha1 := hget a
  rw [if_pos rfl] at ha1
  -- the parent may go with its last sub-transaction
  have hdrop : Inv (some a) (e + one a) L t1 ∧ t1.msgs = t.msgs ∧
      t1.heap.get a = some (subqGone s) := by
    rcases whenT_ok.mp h1 with ⟨hempty, h1⟩ | ⟨hnon, rfl⟩
    · have hI1 : Inv (some a) (e + one a + one p) L
          { t with heap := (t.heap.modify p (subqParent a)).modify a subqGone } := by
        refine hI.unlink hs hps hpar hsub hne hmem fun b => ?_
        rw [hps''] at hempty
        simp only [Pi.add_apply, one, show ps.subq.erase a = [] from hempty, and_true]
      have hI2 := hI1.drop h1 (fun hc => absurd (Option.some.inj hc) hne.symm)
      rw [add_sub_cancel_right] at hI2
      refine ⟨hI2, ?_⟩
      obtain ⟨s1, -, -, ⟨-, rfl⟩ | ⟨-, -, -, -, rfl⟩⟩ := dmsgStateDrop_ok h1
      · exact ⟨rfl, by rw [Store.get_modify_of_ne _ _ hne.symm]; exact ha1⟩
      · exact ⟨rfl, by rw [Store.get_erase, if_neg hne.symm]; exact ha1⟩
    · refine ⟨hI.unlink hs hps hpar hsub hne hmem fun b => ?_, rfl, ha1⟩
      rw [hps''] at hnon
      simp only [Pi.add_apply, one, show ¬ ps.subq.erase a = [] from hnon, and_false, if_false,
        add_zero]
  obtain ⟨hI1, hmsgs, hga⟩ := hdrop
  have hrefs : (subqGone s).refs ≠ 1 := by
    have hbal := hI1.bal a
    rw [Store.valAt_some _ hga] at hbal
    simp only [Pi.add_apply, one, if_true, Trans.pointers, hmsgs] at hbal
    omega
  have hI2 := hI1.drop h2 (fun _ s2 hs2 => by
    rw [hga] at hs2
    cases hs2
    exact hrefs)
  rw [add_sub_cancel_right] at hI2
  obtain ⟨s1, hs1, -, ⟨-, rfl⟩ | ⟨hone, -⟩⟩ := dmsgStateDrop_ok h2
  · exact ⟨hI2, hmsgs⟩
  · rw [hga] at hs1
    cases hs1
    exact absurd hone hrefs

/-- The state that was being taken apart has no relay any more. -/
theorem Inv.done (hI : Inv (some a) e L t)
    (ha : ∀ s, t.heap.get a = some s → s.relay = none) : Inv none e L t := by
  refine ⟨hI.lost, hI.bal, fun b bs hb => ?_, hI.rd, hI.wr⟩
  have hS := hI.shape b bs hb
  refine { hS with relay := fun hr => ?_ }
  rcases hS.relay hr with hc | hc
  · exact Or.inl hc
  · cases hc
    exact absurd (ha bs hb) hr

theorem Inv.dropRelay {u : Unit} (hI : Inv (some a) e L t) (h : dropRelay a t = .ok (u, t')) :
    Inv none e L t' ∧ t'.msgs = t.msgs := by
  simp only [Dmsg.dropRelay, bind_ok_iff, deref_ok] at h
  obtain ⟨s, t, ⟨hs, rfl⟩, h⟩ := h
  cases hr : s.relay with
  | none =>
    rw [hr] at h
    obtain ⟨-, rfl⟩ := pure_ok_iff.mp h
    refine ⟨hI.done fun s' hs' => ?_, rfl⟩
    rw [hs] at hs'
    cases hs'
    exact hr
  | some r =>
    rw [hr] at h
    simp only [bind_ok_iff] at h
    obtain ⟨_, t1, h1, h2⟩ := h
    obtain ⟨⟨s1, hs1⟩, -⟩ := update_ok.mp h2
    -- the update shows that the state was not freed by the drop
    have hI1 : Inv (some a) (e - one r) L t1 := by
      refine hI.drop h1 fun hc sa hsa hone => ?_
      cases hc
      obtain ⟨s2, hs2, -, ⟨hne, -⟩ | ⟨-, -, -, -, rfl⟩⟩ := dmsgStateDrop_ok h1
      · rw [hsa] at hs2
        cases hs2
        exact hne hone
      · rw [Store.get_erase, if_pos rfl] at hs1
        cases hs1
    have hrel : s1.relay = some r ∧ t1.msgs = t.msgs := by
      obtain ⟨s2, hs2, -, ⟨-, rfl⟩ | ⟨-, -, -, -, rfl⟩⟩ := dmsgStateDrop_ok h1
      · rw [Store.get_modify] at hs1
        split at hs1
        · rw [hs] at hs1
          cases hs1
          exact ⟨hr, rfl⟩
        · rw [hs] at hs1
          cases hs1
          exact ⟨hr, rfl⟩
      · rw [Store.get_erase] at hs1
        split at hs1
        · cases hs1
        · rw [hs] at hs1
          cases hs1
          exact ⟨hr, rfl⟩
    have hI2 := hI1.clearRelay hs1 hrel.1 h2
    rw [sub_add_cancel] at hI2
    obtain ⟨-, rfl⟩ := update_ok.mp h2
    refine ⟨hI2.done fun s' hs' => ?_, hrel.2⟩
    rw [Store.get_modify_self, hs1] at hs'
    cases hs'
    rfl

end Unlink

/-! ## New transactions -/

/-- What a new sub-transaction at `a` does to its parent. -/
def subqPush (a : Addr) (ps : DmsgState) : DmsgState :=
  { ps with subq := ps.subq ++ [a], refs := if ps.subq = [] then ps.refs + 1 else ps.refs }

/-- The parent is held once while it has sub-transactions. -/
theorem refs_subqPush (a : Addr) (ps : DmsgState) :
    (subqPush a ps).refs + ps.own = ps.refs + (subqPush a ps).own := by
  simp only [subqPush, DmsgState.own]
  cases ps.subq with
  | nil =>
    simp only [if_true, List.nil_append, List.isEmpty_cons, List.isEmpty_nil, Bool.not_true,
      Bool.not_false, Bool.toNat_true, Bool.toNat_false]
    omega
  | cons b l =>
    simp only [reduceCtorEq, if_false, List.cons_append, List.isEmpty_cons]

/-- A state as it is made, held three times. -/
structure Fresh (p : Addr) (c : DmsgState) : Prop where
  parent : c.parent = some p
  subq : c.subq = []
  relay : c.relay = none
  root : c.root = false
  subinserted : c.subinserted = true
  refs : c.refs = 3

section Open

variable {n : Nat} {p : Addr} {c ps : DmsgState}

/-- Nothing refers to memory that is not in use. -/
theorem Inv.fresh (hI : Inv X e L t) (hn : t.heap.get (.dyn n) = none) (he : 0 ≤ e (.dyn n)) :
    t.pointers (.dyn n) = 0 ∧ L.count (.dyn n) = 0 ∧ e (.dyn n) = 0 := by
  have := hI.bal (.dyn n)
  rw [Store.valAt_none _ hn, Store.valAt_none _ hn] at this
  omega

theorem Inv.fresh_inTree (hI : Inv X e L t) (hn : t.heap.get (.dyn n) = none)
    (he : 0 ≤ e (.dyn n)) : t.inTree (.dyn n) = false := by
  have := (hI.fresh hn he).1
  rw [Trans.pointers] at this
  cases hin : t.inTree (.dyn n) with
  | false => rfl
  | true =>
    rw [hin] at this
    simp only [Bool.toNat_true] at this
    omega

/-- The heap after a state was stacked on `p`. -/
theorem get_stacked (hn : h.get (.dyn n) = none) (hps : h.get p = some ps) (b : Addr) :
    ((h.insert (.dyn n) c).modify p f).get b =
      if b = .dyn n then some c else if b = p then some (f ps) else h.get b := by
  have hne : p ≠ .dyn n := by
    rintro rfl
    rw [hn] at hps
    cases hps
  rw [Store.get_modify, Store.get_insert _ _ _ _ hn]
  by_cases hb : b = p
  · subst hb
    rw [if_pos rfl, if_neg hne, if_neg hne, if_pos rfl, hps]
    rfl
  · rw [if_neg hb, if_neg hb]

theorem Shape.opened {h : Store Addr DmsgState} (hh : ∀ a s, h.get a = some s → Shape X h a s)
    (hn : h.get (.dyn n) = none) (hps : h.get p = some ps) (hc : Fresh p c) {bs : DmsgState}
    (hb : ((h.insert (.dyn n) c).modify p (subqPush (.dyn n))).get b = some bs) :
    Shape X ((h.insert (.dyn n) c).modify p (subqPush (.dyn n))) b bs := by
  have hget := get_stacked (c := c) (f := subqPush (.dyn n)) hn hps
  have hold : ∀ (q : Addr) (qs : DmsgState), h.get q = some qs → q ≠ .dyn n := by
    rintro q qs hq rfl
    rw [hn] at hq
    cases hq
  have hSp := hh p ps hps
  -- a state that was there is there, with the same parent and a queue that has only grown
  have hkeep : ∀ (q : Addr) (qs : DmsgState), h.get q = some qs → ∃ qs',
      ((h.insert (.dyn n) c).modify p (subqPush (.dyn n))).get q = some qs' ∧
      qs'.parent = qs.parent ∧ qs'.subinserted = qs.subinserted ∧ ∀ x ∈ qs.subq, x ∈ qs'.subq := by
    intro q qs hq
    rw [hget q, if_neg (hold q qs hq)]
    by_cases hqp : q = p
    · subst hqp
      rw [hps] at hq
      cases hq
      exact ⟨_, if_pos rfl, rfl, rfl, fun x hx => List.mem_append_left _ hx⟩
    · exact ⟨qs, by rw [if_neg hqp]; exact hq, rfl, rfl, fun _ hx => hx⟩
  have hup : ∀ (q : Addr) (qs : DmsgState), h.get q = some qs → qs.subinserted = true →
      ∃ r rs, qs.parent = some r ∧
        ((h.insert (.dyn n) c).modify p (subqPush (.dyn n))).get r = some rs ∧ q ∈ rs.subq := by
    intro q qs hq hsub
    obtain ⟨r, rs, hr, hrs, hmem⟩ := (hh q qs hq).up hsub
    obtain ⟨rs', hrs', -, -, hsubq⟩ := hkeep r rs hrs
    exact ⟨r, rs', hr, hrs', hsubq q hmem⟩
  have hdown : ∀ (q : Addr) (qs : DmsgState), h.get q = some qs → ∀ x ∈ qs.subq,
      (∃ k, x = .dyn k) ∧ ∃ xs, ((h.insert (.dyn n) c).modify p (subqPush (.dyn n))).get x =
        some xs ∧ xs.parent = some q ∧ xs.subinserted = true := by
    intro q qs hq x hx
    obtain ⟨hdyn, xs, hxs, hpar, hsub⟩ := (hh q qs hq).down x hx
    obtain ⟨xs', hxs', h1, h2, -⟩ := hkeep x xs hxs
    exact ⟨hdyn, xs', hxs', h1.trans hpar, h2.trans hsub⟩
  rw [hget b] at hb
  by_cases hbn : b = .dyn n
  · subst hbn
    rw [if_pos rfl] at hb
    cases hb
    refine ⟨by rw [hc.refs]; omega, fun _ => ⟨p, subqPush (.dyn n) ps, hc.parent, ?_, by
      simp [subqPush]⟩, by rw [hc.subq]; simp, by rw [hc.subq]; exact List.nodup_nil,
      fun hr => absurd hc.relay hr, fun i hi => (by cases hi), fun k _ => ⟨hc.root, ?_⟩⟩
    · rw [hget p, if_neg (hold p ps hps), if_pos rfl]
    · rw [hc.parent]
      exact fun heq => hold p ps hps (Option.some.inj heq)
  · rw [if_neg hbn] at hb
    by_cases hbp : b = p
    · subst hbp
      rw [if_pos rfl] at hb
      cases hb
      refine ⟨?_, hup b ps hps, fun x hx => ?_, ?_, hSp.relay, hSp.ofRoot, hSp.ofDyn⟩
      · have := hSp.pos
        simp only [subqPush]
        split_ifs <;> omega
      · rcases List.mem_append.mp hx with hx | hx
        · exact hdown b ps hps x hx
        · rw [List.mem_singleton] at hx
          subst hx
          exact ⟨⟨n, rfl⟩, c, by rw [hget, if_pos rfl], hc.parent, hc.subinserted⟩
      · refine List.nodup_append'.mpr ⟨hSp.nodup, List.nodup_singleton _, ?_⟩
        intro x hx hx'
        rw [List.mem_singleton] at hx'
        obtain ⟨-, xs, hxs, -⟩ := hSp.down x hx
        exact hold x xs hxs hx'
    · rw [if_neg hbp] at hb
      have hSb := hh b bs hb
      exact { hSb with up := hup b bs hb, down := hdown b bs hb }

/-- A new state under `p`: of its three references one is the queue's, two are in hand. -/
theorem Inv.opened (hI : Inv X e L t) (hn : t.heap.get (.dyn n) = none) (he : 0 ≤ e (.dyn n))
    (hps : t.heap.get p = some ps) (hc : Fresh p c) :
    Inv X (e + one (.dyn n) + one (.dyn n)) L
      { t with heap := (t.heap.insert (.dyn n) c).modify p (subqPush (.dyn n)) } := by
  have hget := get_stacked (c := c) (f := subqPush (.dyn n)) hn hps
  obtain ⟨hfresh, hL, he0⟩ := hI.fresh hn he
  have hnt := hI.fresh_inTree hn he
  have hpn : p ≠ .dyn n := by
    rintro rfl
    rw [hn] at hps
    cases hps
  have hps' : (t.heap.insert (.dyn n) c).get p = some ps := by
    rw [Store.get_insert _ _ _ _ hn, if_neg hpn, hps]
  refine hI.reheap (fun b bs hin hb => ?_) (fun b bs hb => Shape.opened hI.shape hn hps hc hb)
    fun b => ?_
  · rw [hget b] at hb
    split_ifs at hb with h1 h2
    · rw [h1, hnt] at hin
      cases hin
    · cases hb; exact ⟨ps, h2 ▸ hps, rfl, rfl⟩
    · exact ⟨bs, hb, rfl, rfl⟩
  · have hbal := hI.bal b
    have hrel : relayRefs ((t.heap.insert (.dyn n) c).modify p (subqPush (.dyn n))) b =
        relayRefs t.heap b := by
      rw [relayRefs_modify (f := subqPush (.dyn n)) fun _ => rfl, relayRefs,
        Store.total_insert _ _ hn, hc.relay, ← relayRefs]
      simp
    simp only [Trans.pointers, Trans.inTree] at hbal hfresh ⊢
    rw [Store.valAt_modify (subqPush (.dyn n)) _ b hps', Store.valAt_modify _ _ b hps',
      Store.valAt_insert _ _ b hn, Store.valAt_insert _ _ b hn, hrel]
    simp only [Pi.add_apply, one]
    by_cases hbn : b = .dyn n
    · subst hbn
      rw [if_neg hpn.symm, if_neg hpn.symm, DmsgState.own, hc.refs, hc.root, hc.subq,
        hc.subinserted]
      simp only [if_true, List.isEmpty_nil, Bool.not_true, Bool.toNat_true, Bool.toNat_false]
      omega
    · simp only [if_neg hbn]
      by_cases hbp : b = p
      · subst hbp
        rw [Store.valAt_some _ hps, Store.valAt_some _ hps] at hbal
        have := refs_subqPush (.dyn n) ps
        simp only [if_true]
        omega
      · simp only [if_neg hbp]
        omega

theorem mem_of_rbFind {tree : StateTree} {i k : Nat} (h : rbFind tree i k = some b) :
    ((i, k), b) ∈ tree := by
  rw [rbFind, Option.map_eq_some_iff] at h
  obtain ⟨x, hx, rfl⟩ := h
  have hkey : x.1 = (i, k) := by simpa using List.find?_some hx
  rw [← hkey]
  exact List.mem_of_find?_eq_some hx

theorem toNat_enter {x y : Bool} (hx : x = (y || decide (b = a))) (hy : b = a → y = false) :
    (x.toNat : ℤ) + (e - one a) b = y.toNat + e b := by
  simp only [Pi.sub_apply, one]
  by_cases hb : b = a
  · rw [hx, hy hb]
    simp [hb]
  · simp [hx, hb]

section

variable (hI : Inv X e L t)
include hI

/-- A new state that was opened here enters its tree. -/
theorem Inv.insertWr {i : Nat} (hnt : t.inTree (.dyn n) = false) (hs : t.heap.get (.dyn n) = some s)
    (hopp : s.opposite = false ∧ s.iocom = i) :
    Inv X (e - one (.dyn n)) L { t with statewr := rbInsert t.statewr i n (.dyn n) } := by
  have hfind : rbFind t.statewr i n = none := by
    cases hf : rbFind t.statewr i n with
    | none => rfl
    | some b =>
      have hmem := mem_of_rbFind hf
      have hb : b = .dyn n := (hI.wr _ hmem).1
      have : t.inTree b = true := by simp [Trans.inTree, List.mem_map_of_mem hmem]
      rw [hb, hnt] at this
      cases this
  rw [rbInsert, if_pos hfind]
  refine hI.retree hI.rd (fun x hx => ?_) fun b => toNat_enter ?_ fun hb => hb ▸ hnt
  on_goal 2 =>
    simp only [Trans.inTree, List.map_cons, List.mem_cons, Bool.decide_or]
    rw [Bool.or_comm (decide (b = _)), Bool.or_assoc]
  rcases List.mem_cons.mp hx with rfl | hx
  · refine ⟨rfl, fun s' hs' => ?_⟩
    rw [hs] at hs'
    cases hs'
    exact hopp
  · exact hI.wr x hx

/-- A new state that the peer opened enters its tree. -/
theorem Inv.insertRd {i k : Nat} (hnt : t.inTree (.dyn n) = false)
    (hs : t.heap.get (.dyn n) = some s) (hopp : s.opposite = true ∧ s.iocom = i)
    (hfind : rbFind t.staterd i k = none) :
    Inv X (e - one (.dyn n)) L { t with staterd := rbInsert t.staterd i k (.dyn n) } := by
  rw [rbInsert, if_pos hfind]
  refine hI.retree (fun x hx => ?_) hI.wr fun b => toNat_enter ?_ fun hb => hb ▸ hnt
  on_goal 2 =>
    simp only [Trans.inTree, List.map_cons, List.mem_cons, Bool.decide_or]
    rw [Bool.or_assoc, Bool.or_comm]
  rcases List.mem_cons.mp hx with rfl | hx
  · refine ⟨⟨n, rfl⟩, fun s' hs' => ?_⟩
    rw [hs] at hs'
    cases hs'
    exact hopp
  · exact hI.rd x hx

/-- A reference in hand is forgotten. -/
theorem Inv.forget : Inv X (e - one a) (a :: L) { t with lost := a :: t.lost } := by
  refine ⟨by rw [hI.lost], fun b => ?_, hI.shape, hI.rd, hI.wr⟩
  have hbal := hI.bal b
  simp only [Trans.pointers, Trans.inTree, Pi.sub_apply, one, List.count_cons, beq_iff_eq,
    @eq_comm _ a b] at hbal ⊢
  split_ifs at hbal ⊢ <;> omega

end

end Open

end Lh1.Dmsg
