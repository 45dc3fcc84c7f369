/-
  `hammer_cache_flush` on any list of buffers (sbin/hammer/cache.c).

  The list may have any buffers with any references, and `CacheMax` may be any number. The loop
  ends, it frees no buffer that has a reference, and when it ends there is room again or only
  buffers with references are left. `CacheUse` is an `int`, and with 2 GB of buffers it is no
  longer what they take; then the loop may find that it has moved as many buffers as there are and
  raise `CacheMax`, which it never does with fewer.

  To speak of that branch the loop is given with a parameter in its place (`flushLoop`).

  * `flushLoop_spec`: what the loop leaves, for anything in place of the branch.
  * `cache_flush_iff`: `hammer_cache_flush` for any list, and how many buffers keep it from the
    branch.
-/
import Lh1.Hammer.CacheOps

namespace Lh1.Hammer.Cache

open Lib

/-! ## The loop with a parameter for the branch -/

section

variable (cfg : Config) (grow : Nat → CacheM Nat)

/-- `cacheFlushLoop` with `grow` in place of `growCacheMax`. -/
def flushLoop : Nat → Option Ptr → Nat → CacheM Unit
  | 0, _, _ => fail .fuel
  | turns + 1, first, count => do
    match (← get).cacheList with
    | [] => pure ()
    | p :: _ =>
      if first = some p then pure ()
      else
        let b ← deref p
        if b.refs ≠ 0 then
          hammerCacheUsed p
          flushLoop turns (first.or (some p)) (count + 1)
        else
          let count ← grow count
          evict cfg p
          let s ← get
          if s.cacheUse < s.cacheMax.tdiv 2 then pure ()
          else flushLoop turns first count

def flush : CacheM Unit := do
  let s ← get
  if s.cacheMax ≤ s.cacheUse then flushLoop cfg grow (s.cacheList.length + 1) none 0
  else pure ()

end

theorem flushLoop_growCacheMax (cfg : Config) (turns : Nat) :
    flushLoop cfg growCacheMax turns = cacheFlushLoop cfg turns := by
  induction turns with
  | zero => rfl
  | succ turns ih =>
    funext first count
    rw [flushLoop, ih]
    rfl

theorem flush_growCacheMax (cfg : Config) : flush cfg growCacheMax = hammerCacheFlush cfg := by
  rw [flush, hammerCacheFlush]
  simp only [flushLoop_growCacheMax]

/-- A failure where the branch would be taken. -/
def trapCacheMax (count : Nat) : CacheM Nat := fun s =>
  if s.cacheUse.tdiv bufSize ≤ count then .error .assertion else .ok (count, s)

/-- `hammer_cache_flush` comes to the branch that raises `CacheMax`. -/
def RaisesCacheMax (cfg : Config) (s : State) : Prop :=
  flush cfg trapCacheMax s = .error .assertion

/-! ## The lists it may be called with -/

/-- The buffers of the list are there, each one once, and `CacheUse` counts them as an `int`
    does. -/
structure Counted (s : State) : Prop where
  nodup : s.cacheList.Nodup
  listed : ∀ p ∈ s.cacheList, ∃ b, s.heap.get p = some b
  use : s.cacheUse = int32 (bufSize * s.cacheList.length)

/-- What the loop needs of `grow`: if it does not fail it changes at most `CacheMax`, and does not
    count further. -/
def Harmless (grow : Nat → CacheM Nat) : Prop :=
  ∀ count s c t, grow count s = .ok (c, t) → c ≤ count ∧ ∃ m, t = { s with cacheMax := m }

theorem harmless_growCacheMax : Harmless growCacheMax := by
  intro count s c t h
  rw [growCacheMax] at h
  split at h <;> cases h
  · exact ⟨Nat.zero_le _, _, rfl⟩
  · exact ⟨le_rfl, s.cacheMax, rfl⟩

theorem harmless_trapCacheMax : Harmless trapCacheMax := by
  intro count s c t h
  rw [trapCacheMax] at h
  split at h <;> cases h
  exact ⟨le_rfl, s.cacheMax, rfl⟩

section

variable {cfg : Config} {grow : Nat → CacheM Nat} {s s' t : State} {p : Ptr} {b : BufferInfo}
  {u : Unit} {turns count : Nat} {first : Option Ptr} {rest vis : List Ptr}

theorem int32_sub (x y : Int) : int32 (int32 x - y) = int32 (x - y) := by
  rw [int32, int32, int32, Int.bmod_sub_bmod]

theorem evict_fields (hb : s.heap.get p = some b) (h : evict cfg p s = .ok (u, s')) :
    s'.heap = s.heap.erase p ∧ s'.cacheList = s.cacheList.erase p ∧
      s'.cacheUse = int32 (s.cacheUse - bufSize) ∧ s'.cacheMax = s.cacheMax := by
  rw [evict] at h
  simp only [bind_ok_iff, update_ok, relBuffer, deref_ok, check_ok] at h
  obtain ⟨-, t1, ⟨-, rfl⟩, c, t2, ⟨hc, rfl⟩, -, t3, ⟨-, rfl⟩, -, t4, ⟨-, rfl⟩, h⟩ := h
  rw [Store.get_modify_some _ hb] at hc
  cases hc
  rw [if_pos ⟨rfl, rfl⟩] at h
  simp only [bind_ok_iff, chainRemove, hammerCacheDel, free, modify_ok] at h
  obtain ⟨_, t5, hflush, _, t6, rfl, _, t7, rfl, rfl⟩ := h
  split at hflush
  · obtain ⟨d, -, hcase⟩ := flushBuffer_ok hflush
    rcases hcase with ⟨-, rfl⟩ | ⟨-, rfl⟩
    all_goals simp only [Store.erase_modify, and_self]
  · obtain ⟨-, rfl⟩ := pure_ok_iff.mp hflush
    simp only [Store.erase_modify, and_self]

theorem Counted.used (h : Counted s) (hp : p ∈ s.cacheList) :
    Counted { s with cacheList := s.cacheList.erase p ++ [p] } := by
  have hperm : (s.cacheList.erase p ++ [p]).Perm s.cacheList :=
    List.perm_append_comm.trans (List.perm_cons_erase hp).symm
  refine ⟨hperm.nodup_iff.mpr h.nodup, fun q hq => h.listed q (hperm.mem_iff.mp hq), ?_⟩
  rw [hperm.length_eq]
  exact h.use

theorem Counted.evict (h : Counted s) (hp : p ∈ s.cacheList) (hb : s.heap.get p = some b)
    (hev : evict cfg p s = .ok (u, s')) : Counted s' := by
  obtain ⟨hheap, hlist, huse, -⟩ := evict_fields hb hev
  have hpos := List.length_pos_of_mem hp
  refine ⟨hlist ▸ h.nodup.erase p, fun q hq => ?_, ?_⟩
  · rw [hlist, h.nodup.mem_erase_iff] at hq
    rw [hheap, Store.get_erase, if_neg hq.1]
    exact h.listed q hq.2
  · rw [huse, hlist, h.use, int32_sub, List.length_erase_of_mem hp, Nat.cast_sub hpos]
    congr 1
    push_cast
    ring

theorem Counted.setMax (h : Counted s) (m : Int) : Counted { s with cacheMax := m } :=
  ⟨h.nodup, h.listed, h.use⟩

/-! ## One turn -/

/-- Where the loop is: `vis` are the buffers it has moved to the tail, `rest` those it has yet to
    look at. -/
structure At (rest vis : List Ptr) (first : Option Ptr) (s : State) : Prop where
  list : s.cacheList = rest ++ vis
  moved : ∀ q ∈ vis, ∃ b, s.heap.get q = some b ∧ b.refs ≠ 0
  first : first = vis.head?

theorem At.start (s : State) : At s.cacheList [] none s :=
  ⟨(List.append_nil _).symm, nofun, rfl⟩

theorem At.move (h : At (p :: rest) vis first s) (hb : s.heap.get p = some b) (hrefs : b.refs ≠ 0) :
    At rest (vis ++ [p]) (first.or (some p))
      { s with cacheList := s.cacheList.erase p ++ [p] } where
  list := by
    dsimp only
    rw [h.list, List.cons_append, List.erase_cons_head, List.append_assoc]
  moved q hq := by
    rcases List.mem_append.mp hq with hq | hq
    · exact h.moved q hq
    · rw [List.mem_singleton.mp hq]
      exact ⟨b, hb, hrefs⟩
  first := by rw [h.first]; cases vis <;> rfl

theorem At.evict (h : At (p :: rest) vis first s) (hb : s.heap.get p = some b) (hrefs : b.refs = 0)
    (hheap : s'.heap = s.heap.erase p) (hlist : s'.cacheList = s.cacheList.erase p) :
    At rest vis first s' where
  list := by rw [hlist, h.list, List.cons_append, List.erase_cons_head]
  moved q hq := by
    obtain ⟨c, hc, hcr⟩ := h.moved q hq
    refine ⟨c, ?_, hcr⟩
    rw [hheap, Store.get_erase, if_neg ?_, hc]
    rintro rfl
    rw [hb] at hc
    cases hc
    exact hcr hrefs
  first := h.first

theorem flushLoop_end (cfg : Config) (grow : Nat → CacheM Nat) (turns count : Nat)
    (h : At [] vis first s) : flushLoop cfg grow (turns + 1) first count s = .ok ((), s) := by
  rw [flushLoop, get_bind, h.list, List.nil_append]
  cases vis with
  | nil => rfl
  | cons p vis =>
    -- the first buffer that was moved has come up again
    dsimp only
    rw [if_pos (show first = some p from h.first)]
    rfl

/-- A turn looks at a buffer that it has not moved. -/
theorem flushLoop_turn (cfg : Config) (grow : Nat → CacheM Nat) (turns count : Nat)
    (hc : Counted s) (h : At (p :: rest) vis first s) (hb : s.heap.get p = some b) :
    flushLoop cfg grow (turns + 1) first count s =
      (if b.refs ≠ 0 then hammerCacheUsed p >>= fun _ =>
        flushLoop cfg grow turns (first.or (some p)) (count + 1)
      else grow count >>= fun count => evict cfg p >>= fun _ => get >>= fun s =>
        if s.cacheUse < s.cacheMax.tdiv 2 then pure ()
        else flushLoop cfg grow turns first count) s := by
  have hlist : s.cacheList = p :: (rest ++ vis) := h.list
  have hgo : first ≠ some p := by
    intro hstop
    have hp : p ∈ vis := List.mem_of_mem_head? (h.first ▸ hstop)
    have hnodup := hc.nodup
    rw [hlist] at hnodup
    exact (List.nodup_cons.mp hnodup).1 (List.mem_append_right _ hp)
  rw [flushLoop, get_bind, hlist]
  dsimp only
  rw [if_neg hgo, bind_of_ok (deref_ok.mpr ⟨hb, rfl⟩)]

theorem flushLoop_move (cfg : Config) (grow : Nat → CacheM Nat) (turns count : Nat)
    (hc : Counted s) (h : At (p :: rest) vis first s) (hb : s.heap.get p = some b)
    (hrefs : b.refs ≠ 0) : flushLoop cfg grow (turns + 1) first count s =
      flushLoop cfg grow turns (first.or (some p)) (count + 1)
        { s with cacheList := s.cacheList.erase p ++ [p] } := by
  rw [flushLoop_turn cfg grow turns count hc h hb, if_pos hrefs, hammerCacheUsed, modify_bind]

theorem flushLoop_evict (cfg : Config) (grow : Nat → CacheM Nat) (turns count : Nat)
    (hc : Counted s) (h : At (p :: rest) vis first s) (hb : s.heap.get p = some b)
    (hrefs : b.refs = 0) : flushLoop cfg grow (turns + 1) first count s =
      (grow count >>= fun count => evict cfg p >>= fun _ => get >>= fun s =>
        if s.cacheUse < s.cacheMax.tdiv 2 then pure ()
        else flushLoop cfg grow turns first count) s := by
  rw [flushLoop_turn cfg grow turns count hc h hb, if_neg (not_not.mpr hrefs)]

theorem At.mem (h : At (p :: rest) vis first s) : p ∈ s.cacheList := by
  rw [h.list]
  exact List.mem_append_left _ List.mem_cons_self

/-! ## The whole loop -/

/-- Buffers with references stay, as they were and on the list. -/
def Keeps (s s' : State) : Prop :=
  ∀ p b, s.heap.get p = some b → b.refs ≠ 0 →
    s'.heap.get p = some b ∧ (p ∈ s.cacheList → p ∈ s'.cacheList)

theorem Keeps.trans (h : Keeps s t) (h' : Keeps t s') : Keeps s s' := by
  intro p b hb hrefs
  obtain ⟨hb', hmem⟩ := h p b hb hrefs
  obtain ⟨hb'', hmem'⟩ := h' p b hb' hrefs
  exact ⟨hb'', hmem' ∘ hmem⟩

theorem Keeps.used (hp : p ∈ s.cacheList) :
    Keeps s { s with cacheList := s.cacheList.erase p ++ [p] } := by
  intro q c hc _
  refine ⟨hc, fun hq => ?_⟩
  exact (List.perm_append_comm.trans (List.perm_cons_erase hp).symm).mem_iff.mpr hq

theorem Keeps.evict (hb : s.heap.get p = some b) (hrefs : b.refs = 0)
    (hheap : s'.heap = s.heap.erase p) (hlist : s'.cacheList = s.cacheList.erase p) :
    Keeps s s' := by
  intro q c hc hcr
  have hne : q ≠ p := by
    rintro rfl
    rw [hb] at hc
    cases hc
    exact hcr hrefs
  refine ⟨by rw [hheap, Store.get_erase, if_neg hne, hc], fun hq => ?_⟩
  rw [hlist]
  exact (List.mem_erase_of_ne hne).mpr hq

/-- There is room in the cache, or all buffers have references. -/
def Relieved (s : State) : Prop :=
  s.cacheUse < s.cacheMax.tdiv 2 ∨ ∀ p ∈ s.cacheList, ∃ b, s.heap.get p = some b ∧ b.refs ≠ 0

theorem flushLoop_spec (hg : Harmless grow) (hc : Counted s) (ha : At rest vis first s)
    (h : flushLoop cfg grow turns first count s = .ok (u, s')) : Keeps s s' ∧ Relieved s' := by
  induction turns generalizing first count rest vis s with
  | zero => cases h
  | succ turns ih =>
    cases rest with
    | nil =>
      rw [flushLoop_end cfg grow turns count ha] at h
      cases h
      refine ⟨fun q c hq _ => ⟨hq, id⟩, Or.inr fun q hq => ha.moved q ?_⟩
      rwa [ha.list, List.nil_append] at hq
    | cons p rest =>
      obtain ⟨b, hb⟩ := hc.listed p ha.mem
      by_cases hrefs : b.refs = 0
      · rw [flushLoop_evict cfg grow turns count hc ha hb hrefs] at h
        obtain ⟨c, t, hgrow, h1⟩ := bind_ok_iff.mp h
        obtain ⟨_, t', hev, h2⟩ := bind_ok_iff.mp h1
        obtain ⟨-, m, rfl⟩ := hg _ _ _ _ hgrow
        obtain ⟨hheap, hlist, -⟩ := evict_fields (s := { s with cacheMax := m }) hb hev
        have hk : Keeps s t' := Keeps.evict hb hrefs hheap hlist
        rw [get_bind] at h2
        split at h2
        next hroom =>
          obtain ⟨-, rfl⟩ := pure_ok_iff.mp h2
          exact ⟨hk, Or.inl hroom⟩
        next =>
          obtain ⟨h3, h4⟩ := ih ((hc.setMax m).evict ha.mem hb hev)
            (ha.evict hb hrefs hheap hlist) h2
          exact ⟨hk.trans h3, h4⟩
      · rw [flushLoop_move cfg grow turns count hc ha hb hrefs] at h
        obtain ⟨h1, h2⟩ := ih (hc.used ha.mem) (ha.move hb hrefs) h
        exact ⟨(Keeps.used ha.mem).trans h1, h2⟩

/-- The loop has turns enough, and if it fails then where `grow` or an eviction does. `Q` is what
    is known of the buffers, and `N` bounds their number. -/
theorem flushLoop_avoids {E : Fault → Prop} {Q : BufferInfo → Prop} {N : Nat} (hg : Harmless grow)
    (hgrow : ∀ count t, Counted t → count < t.cacheList.length → t.cacheList.length ≤ N →
      Avoids E (grow count) t)
    (hevict : ∀ p b t, t.heap.get p = some b → Q b → Avoids E (evict cfg p) t)
    (hc : Counted s) (ha : At rest vis first s) (hQ : ∀ p b, s.heap.get p = some b → Q b)
    (hN : s.cacheList.length ≤ N) (hcount : count ≤ vis.length) (hlt : rest.length < turns) :
    Avoids E (flushLoop cfg grow turns first count) s := by
  induction turns generalizing first count rest vis s with
  | zero => exact absurd hlt (Nat.not_lt_zero _)
  | succ turns ih =>
    cases rest with
    | nil => exact avoids_of_ok (flushLoop_end cfg grow turns count ha)
    | cons p rest =>
      obtain ⟨b, hb⟩ := hc.listed p ha.mem
      have hlt' : rest.length < turns := Nat.lt_of_succ_lt_succ hlt
      have hlen : s.cacheList.length = rest.length + 1 + vis.length := by
        rw [ha.list, List.length_append, List.length_cons]
      by_cases hrefs : b.refs = 0
      · rw [avoids_congr (flushLoop_evict cfg grow turns count hc ha hb hrefs), avoids_bind]
        refine ⟨hgrow count s hc (by omega) hN, fun c t hgt => ?_⟩
        obtain ⟨hle, m, rfl⟩ := hg _ _ _ _ hgt
        rw [avoids_bind]
        refine ⟨hevict p b _ hb (hQ p b hb), fun _ t hev => ?_⟩
        obtain ⟨hheap, hlist, -⟩ := evict_fields (s := { s with cacheMax := m }) hb hev
        rw [avoids_congr get_bind]
        split
        · exact avoids_pure ()
        · refine ih ((hc.setMax m).evict ha.mem hb hev) (ha.evict hb hrefs hheap hlist) ?_ ?_
            (hle.trans hcount) hlt'
          · intro q d hd
            rw [hheap] at hd
            exact hQ q d (get_erase_inv hd).2
          · rw [hlist]
            exact (List.length_erase_le).trans hN
      · rw [avoids_congr (flushLoop_move cfg grow turns count hc ha hb hrefs)]
        refine ih (hc.used ha.mem) (ha.move hb hrefs) hQ ?_ ?_ hlt'
        · dsimp only
          rw [List.length_append, List.length_erase_of_mem ha.mem, List.length_singleton]
          omega
        · rw [List.length_append, List.length_singleton]
          omega

/-- The loop moves buffers with references one after the other. -/
theorem flushLoop_moves (cfg : Config) (grow : Nat → CacheM Nat) (turns count : Nat)
    {moved : List Ptr} (hc : Counted s) (ha : At (moved ++ rest) vis first s)
    (hmoved : ∀ p ∈ moved, ∃ b, s.heap.get p = some b ∧ b.refs ≠ 0) :
    flushLoop cfg grow (turns + moved.length) first count s =
      flushLoop cfg grow turns (vis ++ moved).head? (count + moved.length)
        { s with cacheList := rest ++ (vis ++ moved) } ∧
      Counted { s with cacheList := rest ++ (vis ++ moved) } ∧
      At rest (vis ++ moved) (vis ++ moved).head? { s with cacheList := rest ++ (vis ++ moved) } := by
  induction moved generalizing first count vis s with
  | nil =>
    have heq : s = { s with cacheList := rest ++ (vis ++ []) } := by
      rw [List.append_nil, ← List.nil_append rest, ← ha.list]
    rw [← heq, List.append_nil, ← ha.first]
    exact ⟨rfl, hc, ha⟩
  | cons p moved ih =>
    obtain ⟨b, hb, hrefs⟩ := hmoved p List.mem_cons_self
    have hmove : At (moved ++ rest) (vis ++ [p]) (first.or (some p))
      { s with cacheList := s.cacheList.erase p ++ [p] } := ha.move hb hrefs
    obtain ⟨h1, h2, h3⟩ := ih (count + 1) (hc.used ha.mem) hmove
      fun q hq => hmoved q (List.mem_cons_of_mem _ hq)
    rw [List.append_assoc, List.singleton_append] at h1 h2 h3
    refine ⟨?_, h2, h3⟩
    rw [List.length_cons, ← Nat.add_assoc,
      flushLoop_move cfg grow _ count hc ha hb hrefs, h1]
    congr 1
    omega

/-! ## Failing to write -/

/-- If all I/O succeeds an eviction does. -/
theorem avoids_evict_of_io (hio : ∀ n, cfg.ioOk n = true) (hb : s.heap.get p = some b)
    (hraw : 0 ≤ b.rawOffset) : Avoids (fun _ => True) (evict cfg p) s := by
  refine avoids_evict_of hb fun t e he => ?_
  unfold writeBlock at he
  split at he
  · cases he
  · rw [if_pos ⟨hraw, hio _⟩] at he
    cases he

end

/-- Some I/O call fails, or a buffer has no place on its volume. -/
def WritesFail (cfg : Config) (s : State) : Prop :=
  (∃ n, cfg.ioOk n = false) ∨ ∃ p b, s.heap.get p = some b ∧ b.rawOffset < 0

/-- `hammer_cache_flush` ends, by an exit only if a buffer can not be written, buffers with
    references stay, and if it had something to do there is room or nothing more to free. -/
structure Flushes (cfg : Config) (s : State) : Prop where
  ends : (∃ s', hammerCacheFlush cfg s = .ok ((), s')) ∨
    hammerCacheFlush cfg s = .error .exit ∧ WritesFail cfg s
  keeps : ∀ s', hammerCacheFlush cfg s = .ok ((), s') → Keeps s s'
  relieves : ∀ s', hammerCacheFlush cfg s = .ok ((), s') → s.cacheMax ≤ s.cacheUse → Relieved s'

section

variable {cfg : Config} {s : State}

theorem flush_avoids {E : Fault → Prop} {Q : BufferInfo → Prop} {N : Nat}
    {grow : Nat → CacheM Nat} (hg : Harmless grow)
    (hgrow : ∀ count t, Counted t → count < t.cacheList.length → t.cacheList.length ≤ N →
      Avoids E (grow count) t)
    (hevict : ∀ p b t, t.heap.get p = some b → Q b → Avoids E (evict cfg p) t)
    (hc : Counted s) (hQ : ∀ p b, s.heap.get p = some b → Q b) (hN : s.cacheList.length ≤ N) :
    Avoids E (flush cfg grow) s := by
  rw [flush, avoids_congr get_bind]
  split
  · exact flushLoop_avoids hg hgrow hevict hc (At.start s) hQ hN le_rfl (Nat.lt_succ_self _)
  · exact avoids_pure ()

theorem avoids_growCacheMax {E : Fault → Prop} (count : Nat) :
    Avoids E (growCacheMax count) s := by
  intro e he
  rw [growCacheMax] at he
  split at he <;> cases he

theorem Counted.flushes (hc : Counted s) (cfg : Config) : Flushes cfg s where
  ends := by
    rw [← flush_growCacheMax]
    have hexit : Avoids (· ≠ .exit) (flush cfg growCacheMax) s :=
      flush_avoids (Q := fun _ => True) harmless_growCacheMax
        (fun count t _ _ _ => avoids_growCacheMax count) (fun p b t hb _ => avoids_evict hb) hc
        (fun _ _ _ => trivial) le_rfl
    cases hrun : flush cfg growCacheMax s with
    | ok r => exact Or.inl ⟨r.2, rfl⟩
    | error e =>
      refine Or.inr ⟨congrArg _ (not_not.mp (hexit e hrun)), ?_⟩
      by_contra hno
      simp only [WritesFail, not_or, not_exists, Bool.not_eq_false, not_and, not_lt] at hno
      refine flush_avoids (E := fun _ => True) (Q := fun b => 0 ≤ b.rawOffset)
        harmless_growCacheMax (fun count t _ _ _ => avoids_growCacheMax count)
        (fun p b t hb hraw => avoids_evict_of_io hno.1 hb hraw) hc hno.2 le_rfl e hrun trivial
  keeps s' h := by
    rw [hammerCacheFlush, get_bind] at h
    split at h
    · rw [← flushLoop_growCacheMax] at h
      exact (flushLoop_spec harmless_growCacheMax hc (At.start s) h).1
    · obtain ⟨-, rfl⟩ := pure_ok_iff.mp h
      exact fun p b hb _ => ⟨hb, id⟩
  relieves s' h hfull := by
    rw [hammerCacheFlush, get_bind, if_pos hfull, ← flushLoop_growCacheMax] at h
    exact (flushLoop_spec harmless_growCacheMax hc (At.start s) h).2

/-! ## The branch -/

theorem tdiv_use {n : Nat} (h : n < 131072) :
    (int32 (bufSize * n)).tdiv bufSize = n := by
  rw [int32_eq (by simp only [bufSize]; omega) (by simp only [bufSize]; omega)]
  exact Int.mul_tdiv_cancel_left _ (by decide)

/-- With less than 2 GB of buffers a turn that finds one to evict has moved less than all. -/
theorem Counted.not_raises (hc : Counted s) (hlt : s.cacheList.length < 131072) (cfg : Config) :
    ¬ RaisesCacheMax cfg s := by
  intro h
  refine flush_avoids (E := (· = .assertion)) (Q := fun _ => True) (N := 131071)
    harmless_trapCacheMax (fun count t ht hcount hN => ?_) (fun p b t hb _ => ?_) hc
    (fun _ _ _ => trivial) (by omega) _ h rfl
  · intro e he
    rw [trapCacheMax, ht.use, tdiv_use (by omega), if_neg (by omega)] at he
    cases he
  · intro e he
    rw [not_not.mp (avoids_evict hb e he)]
    decide

/-- Buffer `p` of a volume, one after the other, the first `k` with a reference. -/
def crowdBuffer (k p : Nat) : BufferInfo where
  refs := if p < k then 1 else 0
  modified := false
  delete := false
  zone2Offset := 2 * 2 ^ 60 + bufSize * p
  rawOffset := bufSize * (p + 1)
  volume := ⟨0, false, ⟨bufSize, 2 ^ 40, fun _ => ⟨0, 0⟩, fun _ => 0, fun _ => 0⟩⟩
  ondisk := fun _ => 0

def crowdHeap (k : Nat) : Nat → Store Ptr BufferInfo
  | 0 => Store.empty
  | n + 1 => (crowdHeap k n).insert n (crowdBuffer k n)

/-- `n` buffers, of which the first `k` on the list have references. -/
def crowd (k n : Nat) (cacheMax : Int) : State where
  heap := crowdHeap k n
  next := n
  cacheList := List.range n
  bufferLists := fun v hi => if v = 0 then (List.range n).filter (· % 64 = hi) else []
  cacheUse := int32 (bufSize * n)
  cacheMax := cacheMax
  disks := fun _ _ => 0
  io := 0

theorem crowd_cacheUse (k n : Nat) (cacheMax : Int) :
    (crowd k n cacheMax).cacheUse = int32 (bufSize * n) := by rw [crowd]

theorem crowd_cacheMax (k n : Nat) (cacheMax : Int) : (crowd k n cacheMax).cacheMax = cacheMax := by
  rw [crowd]

theorem get_crowdHeap (k n p : Nat) :
    (crowdHeap k n).get p = if p < n then some (crowdBuffer k p) else none := by
  induction n generalizing p with
  | zero => rfl
  | succ n ih =>
    have hfresh : (crowdHeap k n).get n = none := by rw [ih, if_neg (Nat.lt_irrefl n)]
    rw [crowdHeap, Store.get_insert _ _ _ _ hfresh, ih]
    by_cases hp : p = n
    · rw [if_pos hp, if_pos (by omega), hp]
    · rw [if_neg hp]
      simp only [show p < n ↔ p < n + 1 by omega]

theorem counted_crowd (k n : Nat) (cacheMax : Int) : Counted (crowd k n cacheMax) where
  nodup := List.nodup_range
  listed p hp := ⟨crowdBuffer k p, by
    rw [crowd, get_crowdHeap, if_pos (List.mem_range.mp hp)]⟩
  use := by simp [crowd]

theorem crowd_raises {k n : Nat} {cacheMax : Int} (cfg : Config) (hk : k < n)
    (hfull : cacheMax ≤ int32 (bufSize * n)) (hcount : (int32 (bufSize * n)).tdiv bufSize ≤ k) :
    RaisesCacheMax cfg (crowd k n cacheMax) := by
  obtain ⟨m, rfl⟩ : ∃ m, n = k + (m + 1) := ⟨n - k - 1, by omega⟩
  have hget : ∀ p < k + (m + 1), (crowd k (k + (m + 1)) cacheMax).heap.get p =
      some (crowdBuffer k p) := by
    intro p hp
    rw [crowd, get_crowdHeap, if_pos hp]
  have hlist : List.range (k + (m + 1)) =
      List.range k ++ k :: (List.range m).map fun i => k + (i + 1) := by
    rw [List.range_add, List.range_succ_eq_map, List.map_cons, List.map_map]
    rfl
  have ha : At (List.range k ++ k :: (List.range m).map fun i => k + (i + 1)) [] none
      (crowd k (k + (m + 1)) cacheMax) := hlist ▸ At.start (crowd k (k + (m + 1)) cacheMax)
  have hmoved : ∀ p ∈ List.range k, ∃ b,
      (crowd k (k + (m + 1)) cacheMax).heap.get p = some b ∧ b.refs ≠ 0 := by
    intro p hp
    have hp := List.mem_range.mp hp
    refine ⟨_, hget p (by omega), ?_⟩
    simp only [crowdBuffer, if_pos hp, ne_eq, one_ne_zero, not_false_iff]
  obtain ⟨heq, hc, hat⟩ := flushLoop_moves cfg trapCacheMax (m + 2) 0
    (counted_crowd k _ cacheMax) ha hmoved
  rw [List.length_range, Nat.zero_add] at heq
  have hturns : (crowd k (k + (m + 1)) cacheMax).cacheList.length + 1 = m + 2 + k := by
    rw [crowd, List.length_range]
    omega
  have hrefs : (crowdBuffer k k).refs = 0 := by rw [crowdBuffer, if_neg (Nat.lt_irrefl k)]
  rw [RaisesCacheMax, flush, get_bind, crowd_cacheUse, crowd_cacheMax, if_pos hfull, hturns, heq,
    flushLoop_evict cfg trapCacheMax _ _ hc hat (hget k (by omega)) hrefs]
  refine bind_error_iff.mpr (Or.inl ?_)
  rw [trapCacheMax]
  dsimp only
  rw [crowd_cacheUse, if_pos hcount]

end

/-- `hammer_cache_flush` for any list of buffers, with any references and any `CacheMax`. The
    branch that raises `CacheMax` is never taken if and only if there are less than 2 GB of
    buffers. -/
theorem cache_flush_iff (n : Nat) :
    (∀ cfg s, Counted s → Flushes cfg s) ∧
      ((∀ cfg s, Counted s → s.cacheList.length = n → ¬ RaisesCacheMax cfg s) ↔ n < 131072) := by
  refine ⟨fun cfg s hc => hc.flushes cfg, fun h => ?_, fun hn cfg s hc hlen => ?_⟩
  · by_contra hn
    have hlt : int32 (bufSize * n) < 2 ^ 31 := Int.bmod_lt (m := 2 ^ 32) (by decide)
    have hq : (int32 (bufSize * n)).tdiv bufSize ≤ 131071 := by
      have hle : int32 (bufSize * n) ≤ 131071 * bufSize + 16383 := by
        simp only [bufSize] at hlt ⊢
        omega
      rcases Int.le_total 0 (int32 (bufSize * n)) with hpos | hneg
      · rw [Int.tdiv_eq_ediv_of_nonneg hpos]
        simp only [bufSize] at hle ⊢
        omega
      · have := Int.tdiv_nonneg (a := -int32 (bufSize * n)) (b := bufSize) (by omega) (by decide)
        rw [Int.neg_tdiv] at this
        omega
    exact h ⟨[], 0, 0, fun _ => true⟩ (crowd ((int32 (bufSize * n)).tdiv bufSize).toNat n _)
      (counted_crowd _ n _) List.length_range (crowd_raises _ (by omega) le_rfl (by omega))
  · exact hc.not_raises (hlen ▸ hn) cfg

/-- With 4 GB and 16 MB of buffers `CacheUse` is back at the `CacheMax` of 16 MB that is the default.
    If the first 1024 of them have references and the next one does not, `CacheMax` is raised. -/
theorem cache_flush_raises :
    Counted (crowd 1024 263168 16777216) ∧ (crowd 1024 263168 16777216).cacheUse = 16777216 ∧
      RaisesCacheMax ⟨[], 0, 0, fun _ => true⟩ (crowd 1024 263168 16777216) := by
  have huse : int32 (bufSize * (263168 : Nat)) = 16777216 := by decide
  refine ⟨counted_crowd _ _ _, by rw [crowd_cacheUse, huse], crowd_raises _ (by decide) ?_ ?_⟩
  · rw [huse]
  · rw [huse]
    decide

end Lh1.Hammer.Cache
