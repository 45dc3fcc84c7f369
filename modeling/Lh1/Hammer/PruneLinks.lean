/-
  The softlinks that `hammer prune` reads and the ranges it makes of them (cmd_softprune.c).

  A softlink names a snapshot by the text behind its last `@@`, which goes to `strtoull` as it
  is. Text that is no number is transaction id 0, so an element of the array can start at 0, and
  the range that goes under the lowest snapshot can end below its start: its length wraps.

  `statfs` and what the filesystem reports are parameters. Left out: `prune-everything`, which
  submits no ranges.

  * `finalize_wellFormed_iff`: for an array of snapshots.
  * `prune_ranges_wellFormed_iff`: for a directory of softlinks.
-/
import Lh1.Hammer.Softprune

namespace Lh1.Hammer.Softprune

/-! ## Numbers in text -/

def isSpace (c : Char) : Bool := c = ' ' ∨ ('\t' ≤ c ∧ c ≤ '\r')

/-- The value of a character as a digit; what is no digit has a value above every base. -/
def digitValue (c : Char) : Nat :=
  if '0' ≤ c ∧ c ≤ '9' then c.toNat - 48
  else if 'a' ≤ c ∧ c ≤ 'z' then c.toNat - 87
  else if 'A' ≤ c ∧ c ≤ 'Z' then c.toNat - 55
  else 36

/-- The number at the start of a text, without a bound. -/
def numeral (base : Nat) (text : List Char) : Nat :=
  (text.takeWhile fun c => digitValue c < base).foldl (fun n c => n * base + digitValue c) 0

/-- The base that a text chooses by how it starts. -/
def unsignedText : List Char → Nat
  | '0' :: x :: c :: text =>
    if (x = 'x' ∨ x = 'X') ∧ digitValue c < 16 then numeral 16 (c :: text)
    else numeral 8 (x :: c :: text)
  | '0' :: text => numeral 8 text
  | text => numeral 10 text

/-- `strtoull(text, NULL, 0)`: too large a number is the largest one, a sign is taken modulo
    `2 ^ 64`. -/
def strtoull (text : List Char) : Nat :=
  match text.dropWhile isSpace with
  | '-' :: text =>
    if 2 ^ 64 ≤ unsignedText text then 2 ^ 64 - 1 else (2 ^ 64 - unsignedText text) % 2 ^ 64
  | '+' :: text => min (unsignedText text) (2 ^ 64 - 1)
  | text => min (unsignedText text) (2 ^ 64 - 1)

theorem strtoull_lt (text : List Char) : strtoull text < 2 ^ 64 := by
  unfold strtoull
  split
  · split
    · decide
    · exact Nat.mod_lt _ (by decide)
  · omega
  · omega

/-! ## The directory -/

/-- A softlink with its times. -/
structure Link where
  target : List Char
  ct : Int
  mt : Int

/-- The text in front of the last `@@` and the text behind it. Another `@` behind it hides it. -/
def splitLink (target : List Char) : Option (List Char × List Char) :=
  match target.reverse.dropWhile (· ≠ '@') with
  | '@' :: '@' :: path =>
    some (path.reverse, (target.reverse.takeWhile (· ≠ '@')).reverse)
  | _ => none

/-- `fspath`, relative to the directory unless the link is absolute. -/
def fsPath (dir target path : List Char) : List Char :=
  if target.head? = some '/' then path else dir ++ '/' :: path

/-- The filesystem and the snapshot of a softlink, if it has both. -/
def entry (statfs : List Char → Option Nat) (dir : List Char) (link : Link) :
    Option (Nat × Snapshot) := do
  let (path, text) ← splitLink link.target
  let fsid ← statfs (fsPath dir link.target path)
  some (fsid, ⟨strtoull text, link.ct, link.mt⟩)

/-- `struct softprune` for each filesystem. -/
abbrev Base := List (Nat × Scan)

/-- `hammer_softprune_addentry`, for a link with a filesystem and a snapshot. -/
def addentry (base : Base) (fsid : Nat) (s : Snapshot) : Option Base :=
  match base.lookup fsid with
  | none => do
    let scan ← Scan.init.addelm s
    some ((fsid, scan) :: base)
  | some scan => do
    let scan ← scan.addelm s
    some (base.map fun x => if x.1 = fsid then (x.1, scan) else x)

def scandir (statfs : List Char → Option Nat) (dir : List Char) (links : List Link) :
    Option Base :=
  links.foldlM (fun base link =>
    match entry statfs dir link with
    | none => some base
    | some (fsid, s) => addentry base fsid s) []

/-- What the filesystem reports: `prune_min` of the PFS, and the meta-data snapshots. -/
structure Mount where
  pruneMin : Int
  snaps : List Snapshot
  lt : ∀ s ∈ snaps, s.tid < 2 ^ 64

inductive Stop where
  | overrun
  | usage
  | filesystems
  deriving DecidableEq

/-- The array that is finalized. Without links it is an empty one for the filesystem of the
    directory; with links on several filesystems there is none. -/
def chosen (statfs : List Char → Option Nat) (dir : List Char) : Base → Except Stop (Nat × Scan)
  | [] =>
    match statfs (dir ++ ['/']) with
    | none => .error .usage
    | some fsid => .ok (fsid, Scan.init)
  | [x] => .ok x
  | _ :: _ :: _ => .error .filesystems

/-- `hammer_cmd_softprune`: the ranges given to `HAMMERIOC_PRUNE`, if it comes to that. A
    filesystem that cannot be opened or read is no mount. -/
def hammerCmdSoftprune (statfs : List Char → Option Nat) (mount : Nat → Option Mount)
    (dir : List Char) (links : List Link) (now : Int) : Except Stop (Option (List PruneElm)) :=
  match scandir statfs dir links with
  | none => .error .overrun
  | some base =>
    match chosen statfs dir base with
    | .error e => .error e
    | .ok (fsid, scan) =>
      match mount fsid with
      | none => .ok none
      | some m =>
        match scan.addAll m.snaps with
        | none => .error .overrun
        | some scan =>
          match finalize scan now m.pruneMin with
          | none => .error .overrun
          | some scan => .ok (if scan.elms = [] then none else some scan.elms)

/-! ## Arrays of snapshots -/

/-- What `HAMMERIOC_PRUNE` needs of a range. -/
structure WellFormed (e : PruneElm) : Prop where
  pos : 1 ≤ e.begTid
  lt : e.begTid < e.endTid
  mod : e.modTid = e.endTid - e.begTid
  modPos : 0 < e.modTid

/-- The transaction ids from which no malformed range is made: none below 2, or only one. -/
def Harmless (snaps : List Snapshot) : Prop :=
  (∀ s ∈ snaps, 2 ≤ s.tid) ∨ ∀ s ∈ snaps, ∀ s' ∈ snaps, s.tid = s'.tid

/-- The length of a range as the ioctl gets it. -/
def PruneElm.withLength (e : PruneElm) : PruneElm :=
  { e with modTid := ((e.endTid : Int) - e.begTid) % 2 ^ 64 }

theorem withLength_wellFormed_iff {e : PruneElm} (he : e.endTid < 2 ^ 64) :
    WellFormed e.withLength ↔ 1 ≤ e.begTid ∧ e.begTid < e.endTid := by
  constructor
  · exact fun h => ⟨h.pos, h.lt⟩
  · rintro ⟨h1, h2⟩
    have hmod : ((e.endTid : Int) - e.begTid) % 2 ^ 64 = e.endTid - e.begTid := by omega
    refine ⟨h1, h2, hmod, ?_⟩
    change 0 < ((e.endTid : Int) - e.begTid) % 2 ^ 64
    omega

/-- The ranges made of `rest`, the elements that are left, below `top`. -/
structure Submitted (snaps : List Snapshot) (elms : List PruneElm) (top : Nat)
    (rest : List PruneElm) (lowest : PruneElm) : Prop where
  chain : Chained top rest
  top : ∃ s ∈ snaps, top = s.tid
  origin : ∀ e ∈ rest, ∃ s ∈ snaps, e.begTid = s.tid
  last : rest.getLast? = some lowest
  ranges : elms = (rest ++ [(⟨1, lowest.begTid, 0⟩ : PruneElm)]).map PruneElm.withLength

theorem Chained.getLast_le {top : Nat} {es : List PruneElm} {x : PruneElm} (h : Chained top es)
    (hlast : es.getLast? = some x) : ∀ e ∈ es, x.begTid ≤ e.begTid := by
  induction es generalizing top with
  | nil => simp
  | cons e es ih =>
    intro y hy
    cases es with
    | nil =>
      obtain rfl : e = x := by simpa using hlast
      obtain rfl := List.mem_singleton.mp hy
      exact le_rfl
    | cons z zs =>
      have hlast' : (z :: zs).getLast? = some x := by simpa using hlast
      rcases List.mem_cons.mp hy with rfl | hy
      · have hz := h.2.2.2.1
        exact (ih h.2.2 hlast' z List.mem_cons_self).trans hz.le
      · exact ih h.2.2 hlast' y hy

section

variable {snaps : List Snapshot} {elms : List PruneElm} {top : Nat} {rest : List PruneElm}
  {lowest : PruneElm}

/-- The range under the lowest snapshot decides. -/
theorem Submitted.wellFormed_iff (h : Submitted snaps elms top rest lowest)
    (htid : ∀ s ∈ snaps, s.tid < 2 ^ 64) :
    (∀ e ∈ elms, WellFormed e) ↔ 2 ≤ lowest.begTid := by
  have hlow : lowest ∈ rest := List.mem_of_getLast? h.last
  have hbelow : ∀ e ∈ rest, e.endTid < 2 ^ 64 := by
    intro e he
    obtain ⟨s, hs, htop⟩ := h.top
    exact (h.chain.bounds e he).2.trans_lt (htop ▸ htid s hs)
  have hlowlt : lowest.begTid < 2 ^ 64 :=
    (h.chain.bounds lowest hlow).1.trans (hbelow lowest hlow)
  rw [h.ranges]
  constructor
  · intro hall
    have hlast := hall _ (List.mem_map_of_mem
      (List.mem_append_right rest (List.mem_singleton_self _)))
    exact ((withLength_wellFormed_iff hlowlt).mp hlast).2
  · intro h2 e he
    obtain ⟨x, hx, rfl⟩ := List.mem_map.mp he
    rcases List.mem_append.mp hx with hx | hx
    · refine (withLength_wellFormed_iff (hbelow x hx)).mpr ⟨?_, (h.chain.bounds x hx).1⟩
      have := h.chain.getLast_le h.last x hx
      omega
    · rw [List.mem_singleton.mp hx]
      exact (withLength_wellFormed_iff hlowlt).mpr ⟨le_rfl, h2⟩

/-- A range is only made when two transaction ids differ. -/
theorem Submitted.differ (h : Submitted snaps elms top rest lowest) :
    ∃ s ∈ snaps, ∃ s' ∈ snaps, s.tid ≠ s'.tid := by
  have hlow : lowest ∈ rest := List.mem_of_getLast? h.last
  obtain ⟨s, hs, htop⟩ := h.top
  obtain ⟨s', hs', hb⟩ := h.origin lowest hlow
  have := h.chain.bounds lowest hlow
  exact ⟨s, hs, s', hs', by omega⟩

end

variable {found : List (Nat × Snapshot)} {snaps : List Snapshot} {fsid : Nat}

/-- What is left of the array, without its first element. -/
theorem addLowest_submitted {rest : List PruneElm} {top : Nat} {maxelms : Int} (hchain : Chained top rest)
    (htop : ∃ s ∈ snaps, top = s.tid) (horigin : ∀ e ∈ rest, ∃ s ∈ snaps, e.begTid = s.tid)
    (hroom : rest.length < maxelms) :
    ∃ es, addLowest rest maxelms = some es ∧ ((rest = [] ∧ es = []) ∨
      ∃ lowest, Submitted snaps (es.map PruneElm.withLength) top rest lowest) := by
  unfold addLowest
  cases hlast : rest.getLast? with
  | none =>
    obtain rfl : rest = [] := List.getLast?_eq_none_iff.mp hlast
    exact ⟨[], rfl, .inl ⟨rfl, rfl⟩⟩
  | some e =>
    refine ⟨_, if_pos hroom, .inr ⟨e, hchain, htop, horigin, hlast, rfl⟩⟩

theorem teeth_eq_zero {now pruneMin : Int} {es : List PruneElm}
    (h : ∀ e ∈ es, ¬ Young now pruneMin e) : teeth now pruneMin es = 0 := by
  induction es using List.reverseRecOn with
  | nil => rfl
  | append_singleton es x ih =>
    rw [teeth_append, if_neg (h x (by simp))]
    exact ih fun e he => h e (List.mem_append_left _ he)

/-- What `hammer_softprune_finalize` makes of an array of snapshots. Either there is nothing to
    prune, or ranges below one of the snapshots; and where no snapshot is young, they are below
    the highest one. -/
theorem finalize_submitted {scan : Scan} (hroomy : scan.Roomy) (helms : scan.elms = raw snaps)
    (now pruneMin : Int) :
    ∃ scan', finalize scan now pruneMin = some scan' ∧
      (scan'.elms = [] ∨ ∃ top rest lowest, Submitted snaps scan'.elms top rest lowest) ∧
      ((∀ s ∈ snaps, pruneMin ≤ now - s.time) → ∀ s ∈ snaps, ∀ s' ∈ snaps, s.tid < s'.tid →
        ∃ top rest lowest, Submitted snaps scan'.elms top rest lowest ∧
          lowest.begTid ≤ s.tid) := by
  by_cases hne : snaps = []
  · subst hne
    exact ⟨scan, if_pos helms, .inl helms, nofun⟩
  obtain ⟨e0, es, hfill, hchain, hlen, horigin, hcover⟩ := fillEnds_tids hne
  obtain ⟨i, htail, -⟩ := cutYoung_tail now pruneMin (e0 :: es)
  have hraw : raw snaps ≠ [] := by simpa [raw] using hne
  have hspare : snaps.length < scan.maxelms := by simpa [helms, raw] using hroomy.spare
  have horigin' : ∀ e ∈ e0 :: es, ∃ s ∈ snaps, e.begTid = s.tid := by
    intro e he
    obtain ⟨s, hs, hb, -⟩ := horigin e he
    exact ⟨s, hs, hb⟩
  have hfinal : finalize scan now pruneMin =
      (addLowest (cutYoung now pruneMin (e0 :: es)).tail scan.maxelms).bind fun elms =>
        some { scan with elms := elms.map PruneElm.withLength } := by
    simp only [finalize, helms, if_neg hraw, hfill, Option.bind_eq_bind]
    rfl
  rw [hfinal]
  by_cases hold : ∀ s ∈ snaps, pruneMin ≤ now - s.time
  · -- nothing is cut off
    have hcut : cutYoung now pruneMin (e0 :: es) = e0 :: es := by
      have hteeth : teeth now pruneMin (e0 :: es) = 0 := by
        refine teeth_eq_zero fun e he => ?_
        obtain ⟨s, hs, -, hm⟩ := horigin e he
        have := hold s hs
        rw [Young, hm]
        omega
      unfold cutYoung
      rw [hteeth]
      split <;> rfl
    rw [hcut, List.tail_cons]
    have hroom : es.length < scan.maxelms := by
      rw [List.length_cons] at hlen
      omega
    obtain ⟨es', hlow, hes'⟩ := addLowest_submitted hchain (horigin' e0 List.mem_cons_self)
      (fun e he => horigin' e (List.mem_cons_of_mem _ he)) hroom
    rw [hlow]
    refine ⟨_, rfl, ?_, fun _ s hs s' hs' hlt => ?_⟩
    · rcases hes' with ⟨-, rfl⟩ | ⟨lowest, h⟩
      · exact .inl rfl
      · exact .inr ⟨_, _, lowest, h⟩
    · obtain ⟨x, hx, hbx⟩ := hcover s hs
      obtain ⟨y, hy, hby⟩ := hcover s' hs'
      have hle : ∀ e ∈ e0 :: es, e.begTid ≤ e0.begTid := by
        intro e he
        rcases List.mem_cons.mp he with rfl | he
        · exact le_rfl
        · exact ((hchain.bounds e he).1.trans_le (hchain.bounds e he).2).le
      have hx' : x ∈ es := by
        rcases List.mem_cons.mp hx with rfl | hx
        · have := hle y hy
          omega
        · exact hx
      rcases hes' with ⟨rfl, -⟩ | ⟨lowest, h⟩
      · exact absurd hx' List.not_mem_nil
      · exact ⟨_, _, lowest, h, hbx ▸ h.chain.getLast_le h.last x hx'⟩
  · rw [htail]
    cases hd : (e0 :: es).drop i with
    | nil => exact ⟨⟨[], scan.maxelms⟩, rfl, .inl rfl, fun h => absurd h hold⟩
    | cons e rest =>
      obtain ⟨hrest, -⟩ := hchain.cut i e rest hd
      have hmem : ∀ x ∈ e :: rest, x ∈ e0 :: es := fun x hx => List.mem_of_mem_drop (hd ▸ hx)
      have hroom : rest.length < scan.maxelms := by
        have := congrArg List.length hd
        simp only [List.length_drop, List.length_cons] at this hlen
        omega
      obtain ⟨es', hlow, hes'⟩ := addLowest_submitted hrest
        (horigin' e (hmem e List.mem_cons_self))
        (fun x hx => horigin' x (hmem x (List.mem_cons_of_mem _ hx))) hroom
      rw [List.tail_cons, hlow]
      refine ⟨_, rfl, ?_, fun h => absurd h hold⟩
      rcases hes' with ⟨-, rfl⟩ | ⟨lowest, h⟩
      · exact .inl rfl
      · exact .inr ⟨_, _, lowest, h⟩

/-- There is a time at which no snapshot is young. -/
theorem exists_late (snaps : List Snapshot) (pruneMin : Int) :
    ∃ now, ∀ s ∈ snaps, pruneMin ≤ now - s.time := by
  induction snaps with
  | nil => exact ⟨0, nofun⟩
  | cons s ss ih =>
    obtain ⟨now, h⟩ := ih
    refine ⟨max now (pruneMin + s.time), fun x hx => ?_⟩
    rcases List.mem_cons.mp hx with rfl | hx
    · omega
    · have := h x hx
      omega

/-- An array of snapshots gives well-formed ranges at every time iff its transaction ids are
    harmless. -/
theorem finalize_wellFormed_iff {scan : Scan} (hroomy : scan.Roomy) (helms : scan.elms = raw snaps)
    (htid : ∀ s ∈ snaps, s.tid < 2 ^ 64) (pruneMin : Int) :
    (∀ now scan', finalize scan now pruneMin = some scan' → ∀ e ∈ scan'.elms, WellFormed e) ↔
      Harmless snaps := by
  constructor
  · intro hall
    by_contra hharm
    obtain ⟨hlow, hdiff⟩ := not_or.mp hharm
    push Not at hlow hdiff
    obtain ⟨s, hs, hs2⟩ := hlow
    obtain ⟨a, ha, b, hb, hlt, ha2⟩ : ∃ a ∈ snaps, ∃ b ∈ snaps, a.tid < b.tid ∧ a.tid < 2 := by
      obtain ⟨a, ha, b, hb, hab⟩ := hdiff
      by_cases has : a.tid = s.tid
      · rcases lt_or_gt_of_ne hab with h | h
        · exact ⟨a, ha, b, hb, h, by omega⟩
        · exact ⟨b, hb, a, ha, h, by omega⟩
      · rcases lt_or_gt_of_ne has with h | h
        · exact ⟨a, ha, s, hs, h, by omega⟩
        · exact ⟨s, hs, a, ha, h, hs2⟩
    obtain ⟨now, hold⟩ := exists_late snaps pruneMin
    obtain ⟨scan', hfin, -, hcase⟩ := finalize_submitted hroomy helms now pruneMin
    obtain ⟨top, rest, lowest, hsub, hle⟩ := hcase hold a ha b hb hlt
    have := (hsub.wellFormed_iff htid).mp (hall now scan' hfin)
    omega
  · intro hharm now scan' hfin e he
    obtain ⟨_, hfin', hcase, -⟩ := finalize_submitted hroomy helms now pruneMin
    obtain rfl := Option.some.inj (hfin'.symm.trans hfin)
    rcases hcase with hnil | ⟨top, rest, lowest, hsub⟩
    · exact absurd (hnil ▸ he) List.not_mem_nil
    · refine (hsub.wellFormed_iff htid).mpr ?_ e he
      rcases hharm with h2 | heq
      · obtain ⟨s, hs, hb⟩ := hsub.origin lowest (List.mem_of_getLast? hsub.last)
        exact hb ▸ h2 s hs
      · obtain ⟨s, hs, s', hs', hne⟩ := hsub.differ
        exact absurd (heq s hs s' hs') hne

/-! ## The command -/

/-- The snapshots among `found` that are on a filesystem, in their order. -/
def snapsOn (found : List (Nat × Snapshot)) (fsid : Nat) : List Snapshot :=
  (found.filter fun x => x.1 = fsid).map Prod.snd

theorem snapsOn_append_self (found : List (Nat × Snapshot)) (fsid : Nat) (s : Snapshot) :
    snapsOn (found ++ [(fsid, s)]) fsid = snapsOn found fsid ++ [s] := by
  simp [snapsOn]

theorem snapsOn_append_of_ne {id : Nat} {s : Snapshot} (h : id ≠ fsid) :
    snapsOn (found ++ [(fsid, s)]) id = snapsOn found id := by
  simp [snapsOn, h.symm]

theorem snapsOn_eq_nil (h : fsid ∉ found.map Prod.fst) : snapsOn found fsid = [] := by
  rw [snapsOn, List.map_eq_nil_iff, List.filter_eq_nil_iff]
  intro x hx
  have hne : x.1 ≠ fsid := fun heq => h (heq ▸ List.mem_map_of_mem hx)
  simpa using hne

theorem raw_append (ss : List Snapshot) (s : Snapshot) :
    raw (ss ++ [s]) = raw ss ++ [⟨s.tid, 0, s.time⟩] := by
  simp [raw]

/-- `base` after the links with the entries `found` were added. -/
structure Scanned (found : List (Nat × Snapshot)) (base : Base) : Prop where
  nodup : (base.map Prod.fst).Nodup
  fsids : ∀ fsid, fsid ∈ base.map Prod.fst ↔ fsid ∈ found.map Prod.fst
  arrays : ∀ x ∈ base, x.2.Roomy ∧ x.2.elms = raw (snapsOn found x.1)

theorem lookup_none {base : Base} (h : base.lookup fsid = none) : fsid ∉ base.map Prod.fst := by
  induction base with
  | nil => simp
  | cons x xs ih =>
    obtain ⟨id, scan⟩ := x
    rw [List.lookup_cons] at h
    split at h
    · cases h
    next hne =>
      rw [List.map_cons, List.mem_cons, not_or]
      exact ⟨by simpa using hne, ih h⟩

theorem lookup_some {base : Base} {scan : Scan} (h : base.lookup fsid = some scan) :
    (fsid, scan) ∈ base := by
  induction base with
  | nil => simp at h
  | cons x xs ih =>
    obtain ⟨id, scan'⟩ := x
    rw [List.lookup_cons] at h
    split at h
    next heq =>
      obtain rfl := Option.some.inj h
      obtain rfl : fsid = id := by simpa using heq
      exact List.mem_cons_self
    · exact List.mem_cons_of_mem _ (ih h)

theorem length_raw (ss : List Snapshot) : (raw ss).length = ss.length := by simp [raw]

/-- No filesystem has more snapshots than there is room for. -/
theorem Scanned.le {base : Base} (h : Scanned found base) (fsid : Nat) :
    (snapsOn found fsid).length ≤ maxSnapshots := by
  by_cases hin : fsid ∈ base.map Prod.fst
  · obtain ⟨x, hx, rfl⟩ := List.mem_map.mp hin
    obtain ⟨hroomy, helms⟩ := h.arrays x hx
    rw [← length_raw, ← helms]
    exact hroomy.le
  · rw [snapsOn_eq_nil (mt (h.fsids fsid).mpr hin)]
    exact Nat.zero_le _

/-- A filesystem that has that many takes no more. -/
theorem Scanned.addentry_none {base : Base} (h : Scanned found base)
    (hfull : (snapsOn found fsid).length = maxSnapshots) (s : Snapshot) :
    addentry base fsid s = none := by
  cases hl : base.lookup fsid with
  | none =>
    rw [snapsOn_eq_nil (mt (h.fsids fsid).mpr (lookup_none hl))] at hfull
    cases hfull
  | some scan =>
    obtain ⟨hroomy, helms⟩ := h.arrays _ (lookup_some hl)
    have hnone := Scan.addelm_none hroomy ((congrArg List.length helms).trans
      ((length_raw _).trans hfull)) s
    simp [Softprune.addentry, hl, hnone]

theorem Scanned.addentry {base : Base} (h : Scanned found base) (fsid : Nat) (s : Snapshot)
    (hlt : (snapsOn found fsid).length < maxSnapshots) :
    ∃ base', addentry base fsid s = some base' ∧ Scanned (found ++ [(fsid, s)]) base' := by
  cases hl : base.lookup fsid with
  | none =>
    have hnew := lookup_none hl
    obtain ⟨scan, hadd, hroomy, helms⟩ := Scan.addelm_ok Scan.init_roomy (by decide) s
    refine ⟨(fsid, scan) :: base, by simp [Softprune.addentry, hl, hadd], ?_, ?_, ?_⟩
    · exact List.nodup_cons.mpr ⟨hnew, h.nodup⟩
    · intro id
      rw [List.map_cons, List.mem_cons, h.fsids, List.map_append, List.mem_append, or_comm]
      simp
    · intro x hx
      rcases List.mem_cons.mp hx with rfl | hx
      · refine ⟨hroomy, ?_⟩
        rw [snapsOn_append_self, snapsOn_eq_nil (mt (h.fsids fsid).mpr hnew)]
        exact helms
      · have hne : x.1 ≠ fsid := fun heq => hnew (heq ▸ List.mem_map_of_mem hx)
        rw [snapsOn_append_of_ne hne]
        exact h.arrays x hx
  | some scan =>
    have hmem := lookup_some hl
    obtain ⟨hroomy, helms⟩ := h.arrays _ hmem
    obtain ⟨scan', hadd, hroomy', helms'⟩ := Scan.addelm_ok hroomy
      (by rw [helms, length_raw]; exact hlt) s
    have hfst : (base.map fun x => if x.1 = fsid then (x.1, scan') else x).map Prod.fst =
        base.map Prod.fst := by
      rw [List.map_map]
      refine List.map_congr_left fun x _ => ?_
      rw [Function.comp_apply]
      split <;> rfl
    refine ⟨_, by simp only [Softprune.addentry, hl, hadd]; rfl, ?_, ?_, ?_⟩
    · rw [hfst]
      exact h.nodup
    · intro id
      rw [hfst, h.fsids, List.map_append, List.mem_append]
      have hin : fsid ∈ found.map Prod.fst := (h.fsids fsid).mp (List.mem_map_of_mem hmem)
      constructor
      · exact .inl
      · rintro (hid | hid)
        · exact hid
        · obtain rfl : id = fsid := by simpa using hid
          exact hin
    · intro y hy
      obtain ⟨x, hx, rfl⟩ := List.mem_map.mp hy
      split
      next heq =>
        refine ⟨hroomy', ?_⟩
        change scan'.elms = raw (snapsOn (found ++ [(fsid, s)]) x.1)
        rw [heq, snapsOn_append_self, raw_append, helms', helms]
      next hne =>
        rw [snapsOn_append_of_ne hne]
        exact h.arrays x hx

/-- The links are added, unless there are too many on one filesystem. -/
theorem scandir_scanned (statfs : List Char → Option Nat) (dir : List Char) (links : List Link) :
    (∃ base, scandir statfs dir links = some base ∧
      Scanned (links.filterMap (entry statfs dir)) base) ∨
    scandir statfs dir links = none ∧
      maxSnapshots < (links.filterMap (entry statfs dir)).length := by
  induction links using List.reverseRecOn with
  | nil => exact Or.inl ⟨[], rfl, List.nodup_nil, fun _ => Iff.rfl, nofun⟩
  | append_singleton links link ih =>
    rw [scandir] at ih
    rw [scandir, List.foldlM_append, List.filterMap_append]
    rcases ih with ⟨base, hbase, hscan⟩ | ⟨hnone, hlt⟩
    · rw [hbase]
      cases he : entry statfs dir link with
      | none =>
        refine Or.inl ⟨base, by simp [he], ?_⟩
        rw [List.filterMap_cons_none he, List.filterMap_nil, List.append_nil]
        exact hscan
      | some x =>
        rw [List.filterMap_cons_some he, List.filterMap_nil]
        rcases (hscan.le x.1).lt_or_eq with hroom | hfull
        · obtain ⟨base', hadd, hscan'⟩ := hscan.addentry x.1 x.2 hroom
          exact Or.inl ⟨base', by simp [he, hadd], hscan'⟩
        · refine Or.inr ⟨by simp [he, hscan.addentry_none hfull], ?_⟩
          have hle : (snapsOn (links.filterMap (entry statfs dir)) x.1).length ≤
              (links.filterMap (entry statfs dir)).length := by
            rw [snapsOn, List.length_map]
            exact List.length_filter_le _ _
          rw [List.length_append, List.length_singleton]
          omega
    · refine Or.inr ⟨by rw [hnone]; rfl, ?_⟩
      rw [List.length_append]
      omega

/-- The filesystem that is pruned: the only one the links are on, or that of the directory. -/
def target (statfs : List Char → Option Nat) (dir : List Char) (links : List Link) : Option Nat :=
  match links.filterMap (entry statfs dir) with
  | [] => statfs (dir ++ ['/'])
  | x :: xs => if ∀ y ∈ xs, y.1 = x.1 then some x.1 else none

/-- The snapshots that pruning works with: those of the links and those of the meta-data. -/
def snapshots (statfs : List Char → Option Nat) (mount : Nat → Option Mount) (dir : List Char)
    (links : List Link) : Option (List Snapshot) := do
  let m ← mount (← target statfs dir links)
  some ((links.filterMap (entry statfs dir)).map Prod.snd ++ m.snaps)

section

variable {statfs : List Char → Option Nat} {mount : Nat → Option Mount} {dir : List Char}
  {links : List Link} {base : Base}

theorem entry_lt {link : Link} {x : Nat × Snapshot} (h : entry statfs dir link = some x) :
    x.2.tid < 2 ^ 64 := by
  simp only [entry, Option.bind_eq_bind, Option.bind_eq_some_iff] at h
  obtain ⟨⟨path, text⟩, -, fsid, -, h⟩ := h
  rw [← Option.some.inj h]
  exact strtoull_lt text

/-- The command goes on with the filesystem that is pruned, and with the snapshots on it. -/
theorem chosen_spec (h : Scanned (links.filterMap (entry statfs dir)) base) :
    match target statfs dir links with
    | none => ∃ e, chosen statfs dir base = .error e
    | some fsid => ∃ scan, chosen statfs dir base = .ok (fsid, scan) ∧ scan.Roomy ∧
        scan.elms = raw ((links.filterMap (entry statfs dir)).map Prod.snd) := by
  unfold target
  generalize links.filterMap (entry statfs dir) = found at h
  cases found with
  | nil =>
    have hnil : base = [] := by
      rw [← List.map_eq_nil_iff, List.eq_nil_iff_forall_not_mem]
      exact fun fsid hf => absurd ((h.fsids fsid).mp hf) List.not_mem_nil
    subst hnil
    dsimp only [chosen]
    cases statfs (dir ++ ['/']) with
    | none => exact ⟨_, rfl⟩
    | some fsid => exact ⟨_, rfl, Scan.init_roomy, rfl⟩
  | cons x xs =>
    dsimp only
    have hx : x.1 ∈ base.map Prod.fst := (h.fsids x.1).mpr List.mem_cons_self
    split_ifs with hall
    · have hsame : ∀ fsid ∈ base.map Prod.fst, fsid = x.1 := by
        intro fsid hf
        obtain ⟨y, hy, rfl⟩ := List.mem_map.mp ((h.fsids fsid).mp hf)
        rcases List.mem_cons.mp hy with rfl | hy
        · rfl
        · exact hall y hy
      have hon : snapsOn (x :: xs) x.1 = (x :: xs).map Prod.snd := by
        rw [snapsOn, List.filter_eq_self.mpr]
        intro y hy
        rcases List.mem_cons.mp hy with rfl | hy
        · exact decide_eq_true rfl
        · exact decide_eq_true (hall y hy)
      match base, h, hx, hsame with
      | [b], h, _, hsame =>
        have hb : b.1 = x.1 := hsame b.1 (by simp)
        obtain ⟨hroomy, helms⟩ := h.arrays b List.mem_cons_self
        refine ⟨b.2, ?_, hroomy, ?_⟩
        · rw [← hb, chosen]
        · rw [helms, hb, hon]
      | b :: c :: bs, h, _, hsame =>
        have hb : b.1 = x.1 := hsame b.1 (by simp)
        have hc : c.1 = x.1 := hsame c.1 (by simp)
        have hnodup := h.nodup
        simp [hb, hc] at hnodup
    · push Not at hall
      obtain ⟨y, hy, hne⟩ := hall
      have hy' : y.1 ∈ base.map Prod.fst :=
        (h.fsids y.1).mpr (List.mem_map_of_mem (List.mem_cons_of_mem _ hy))
      match base, hx, hy' with
      | [b], hx, hy' =>
        have hxb : x.1 = b.1 := by simpa using hx
        have hyb : y.1 = b.1 := by simpa using hy'
        exact absurd (hyb.trans hxb.symm) hne
      | b :: c :: bs, _, _ => exact ⟨_, rfl⟩

/-- The command on a filesystem that can be read and does not have too many snapshots, and
    otherwise. -/
theorem hammerCmdSoftprune_spec (statfs : List Char → Option Nat) (mount : Nat → Option Mount)
    (dir : List Char) (links : List Link) :
    (∀ now ranges, hammerCmdSoftprune statfs mount dir links now ≠ .ok (some ranges)) ∧
      (∀ snaps, snapshots statfs mount dir links = some snaps → maxSnapshots < snaps.length) ∨
    ∃ snaps, snapshots statfs mount dir links = some snaps ∧ snaps.length ≤ maxSnapshots ∧
      (∀ s ∈ snaps, s.tid < 2 ^ 64) ∧ ∃ scan pruneMin, scan.Roomy ∧
        scan.elms = raw snaps ∧ ∀ now, ∃ scan', finalize scan now pruneMin = some scan' ∧
          hammerCmdSoftprune statfs mount dir links now =
            .ok (if scan'.elms = [] then none else some scan'.elms) := by
  unfold snapshots hammerCmdSoftprune
  rcases scandir_scanned statfs dir links with ⟨base, hbase, hscan⟩ | ⟨hnone, hlt⟩
  · have hchosen := chosen_spec hscan
    rw [hbase]
    cases ht : target statfs dir links with
    | none =>
      rw [ht] at hchosen
      obtain ⟨e, he⟩ := hchosen
      exact Or.inl ⟨by simp [he], by simp⟩
    | some fsid =>
      rw [ht] at hchosen
      obtain ⟨scan, hscan, hroomy, helms⟩ := hchosen
      cases hm : mount fsid with
      | none => exact Or.inl ⟨by simp [hscan, hm], by simp [hm]⟩
      | some m =>
        simp only [hscan, hm, Option.bind_eq_bind, Option.bind_some, Option.some.injEq,
          exists_eq_left', forall_eq']
        have hlen : scan.elms.length = (links.filterMap (entry statfs dir)).length := by
          rw [helms, length_raw, List.length_map]
        rcases Nat.lt_or_ge maxSnapshots (scan.elms.length + m.snaps.length) with hfull | hroom
        · left
          rw [Scan.addAll_none hroomy m.snaps hfull, List.length_append, List.length_map, ← hlen]
          exact ⟨fun _ _ h => (by cases h), hfull⟩
        · right
          obtain ⟨scan1, hadd, hroomy1, helms1⟩ := Scan.addAll_ok hroomy m.snaps hroom
          rw [hadd]
          have hsnaps : scan1.elms =
              raw ((links.filterMap (entry statfs dir)).map Prod.snd ++ m.snaps) := by
            rw [helms1, helms, raw, raw, raw, List.map_append]
          refine ⟨?_, fun s hs => ?_, scan1, m.pruneMin, hroomy1, hsnaps, fun now => ?_⟩
          · rw [List.length_append, List.length_map, ← hlen]
            exact hroom
          · rcases List.mem_append.mp hs with hs | hs
            · obtain ⟨x, hx, rfl⟩ := List.mem_map.mp hs
              obtain ⟨link, -, he⟩ := List.mem_filterMap.mp hx
              exact entry_lt he
            · exact m.lt s hs
          · obtain ⟨scan', hfin, -⟩ := finalize_submitted hroomy1 hsnaps now m.pruneMin
            exact ⟨scan', hfin, by simp only [hfin]⟩
  · -- the array is overrun by the links alone
    left
    rw [hnone]
    refine ⟨fun _ _ h => (by cases h), fun snaps hs => ?_⟩
    simp only [Option.bind_eq_bind, Option.bind_eq_some_iff, Option.some.injEq] at hs
    obtain ⟨fsid, -, m, -, rfl⟩ := hs
    rw [List.length_append, List.length_map]
    omega

/-- Every range that is submitted for a directory of softlinks is well formed, at every time, iff
    the snapshots pruning works with have harmless transaction ids, or are too many. -/
theorem prune_ranges_wellFormed_iff (statfs : List Char → Option Nat)
    (mount : Nat → Option Mount) (dir : List Char) (links : List Link) :
    (∀ now ranges, hammerCmdSoftprune statfs mount dir links now = .ok (some ranges) →
      ∀ e ∈ ranges, WellFormed e) ↔
    ∀ snaps, snapshots statfs mount dir links = some snaps → snaps.length ≤ maxSnapshots →
      Harmless snaps := by
  rcases hammerCmdSoftprune_spec statfs mount dir links with ⟨hnone, hmany⟩ |
    ⟨snaps, hs, hle, htid, scan, pruneMin, hroomy, helms, hcmd⟩
  · exact iff_of_true (fun now ranges h => absurd h (hnone now ranges))
      fun snaps hs hle => absurd (hmany snaps hs) (not_lt.mpr hle)
  · have hiff := finalize_wellFormed_iff hroomy helms htid pruneMin
    constructor
    · rintro hall snaps' hs' -
      obtain rfl := Option.some.inj (hs.symm.trans hs')
      refine hiff.mp fun now scan' hfin e he => ?_
      obtain ⟨scan'', hfin', hrun⟩ := hcmd now
      obtain rfl := Option.some.inj (hfin.symm.trans hfin')
      rw [if_neg (List.ne_nil_of_mem he)] at hrun
      exact hall now _ hrun e he
    · intro hharm now ranges hrun e he
      obtain ⟨scan', hfin, hrun'⟩ := hcmd now
      rw [hrun'] at hrun
      split at hrun
      · cases hrun
      · obtain rfl := Option.some.inj (Except.ok.inj hrun)
        exact hiff.mpr (hharm snaps hs hle) now scan' hfin e he

/-- Two softlinks in one directory, one of them with a text that is no number: the last range is
    from 1 to 0, and its length is the largest number there is. -/
theorem prune_ranges_wrap :
    hammerCmdSoftprune (fun _ => some 0) (fun _ => some ⟨0, [], nofun⟩) "/snaps".toList
      [⟨"/mnt@@0x100".toList, 10, 10⟩, ⟨"/mnt@@latest".toList, 20, 20⟩] 100 =
        .ok (some [⟨0, 256, 256⟩, ⟨1, 0, 2 ^ 64 - 1⟩]) ∧
      ¬ WellFormed ⟨0, 256, 256⟩ ∧ ¬ WellFormed ⟨1, 0, 2 ^ 64 - 1⟩ :=
  ⟨by decide +kernel, fun h => absurd h.pos (by decide), fun h => absurd h.lt (by decide)⟩

end

end Lh1.Hammer.Softprune
