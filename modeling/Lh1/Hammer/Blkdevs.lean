/-
  The device specification of the hammer utility: `__hammer_parse_blkdevs` (hammer.c), the labels
  of devtab files (getdevpath.c) and `load_volume` (ondisk.c).

  A specification is a list with colons between its elements, and an element can be a label for
  a list. The function calls itself for such a list. Each call counts the volumes it loads
  itself, and compares that number with the header of the last volume it has loaded itself.

  - `leaves` is what a specification stands for: the devices, with all labels expanded.
  - `parseBlkdevs_loads`: a call that returns has loaded at least one volume for every element.
  - `parseBlkdevs_right_iff`: a specification is taken for what it stands for, whatever is on the
    devices, just if every label in it stands for one device.

  A missing `-f` option is left out. That a device cannot be opened, is of an unsupported type
  or has no header to read is one error here.
-/
import Lh1.Lib.Fallible

namespace Lh1.Hammer.Blkdevs

open Lib

abbrev Path := List Char

/-! ## Labels -/

/-- What the names of devices depend on: which names exist below `/dev`, and the devtab files of
    the search path, as far as they can be opened. `fsType` is `Hammer_FSType`. -/
structure Host where
  lstat : Path → Bool
  devtabs : List (Option (List Char))
  fsType : Nat

/-- What one `fgets` into a buffer of 256 leaves for the next one, and what it reads. -/
def fgets (text : List Char) : List Char × List Char :=
  let line := text.takeWhile (· ≠ '\n')
  let n := min 255 (line.length + 1)
  (text.take n, text.drop n)

/-- The lines of a file as the loop over `fgets` sees them, each up to its first NUL. Every line
    takes a character or more, so `n` is the length of what is left, or more. -/
def readLines : Nat → List Char → List (List Char)
  | 0, _ => []
  | _ + 1, [] => []
  | n + 1, text => (fgets text).1.takeWhile (· ≠ '\x00') :: readLines n (fgets text).2

def fileLines (text : List Char) : List (List Char) := readLines text.length text

/-- `strtok_r` with blanks and line ends, until nothing is left. -/
def fields (line : List Char) : List (List Char) :=
  (line.splitOnP fun c => c = ' ' || c = '\t' || c = '\r' || c = '\n').filter (· ≠ [])

def dodequote (base : List Char) : List Char :=
  if base.head? = some '\x22' ∧ base.getLast? = some '\x22' then base.dropLast.tail else base

/-- The part of a name in front of its last dot, and the rest. The first is empty when there is
    no dot. -/
def splitTrailer (devname : Path) : Path × Path :=
  let trailer := devname.reverse.takeWhile (· ≠ '.')
  if '.' ∈ devname then
    (devname.take (devname.length - trailer.length - 1),
      devname.drop (devname.length - trailer.length - 1))
  else ([], [])

/-- The trailer to add when a label matches a name. -/
def matchLabel (devname label : Path) : Option Path :=
  let (stem, trailer) := splitTrailer devname
  if devname = label then some []
  else if stem ≠ [] ∧ label = stem then some trailer
  else none

def devDir : Path := ['/', 'd', 'e', 'v', '/']

/-- One line of a devtab file. -/
def lineLabel (devname : Path) (line : List Char) : Option Path :=
  match fields line with
  | label :: ptr2 :: ptr3 :: _ =>
    if label.head? = some '#' then none
    else (matchLabel devname label).map fun trailer =>
      if ptr2 = ['p', 'a', 't', 'h'] then dodequote ptr3 ++ trailer
      else devDir ++ ptr2 ++ ['/'] ++ dodequote ptr3 ++ trailer
  | _ => none

def finddevlabel (host : Host) (devname : Path) : Option Path :=
  host.devtabs.findSome? fun text =>
    text.bind fun text => (fileLines text).findSome? (lineLabel devname)

/-- The name is a path already. -/
def Rooted (devname : Path) : Prop := devname.head? = some '/' ∨ devname.head? = some '.'

instance (devname : Path) : Decidable (Rooted devname) := inferInstanceAs (Decidable (_ ∨ _))

/-- `getdevpath` without flags. -/
def getdevpath (host : Host) (devname : Path) : Path :=
  if Rooted devname then devname
  else if host.lstat (devDir ++ devname) = true then devDir ++ devname
  else (finddevlabel host devname).getD devname

/-! ## Volumes -/

/-- The fields of a volume header that are looked at. -/
structure VolumeHeader where
  signature : Nat
  fstype : Nat
  fsid : Nat
  version : Nat
  rootvol : Nat
  volNo : Int
  volCount : Int
  deriving DecidableEq

/-- A device that can be opened: its `st_ino` and `st_dev`, and its header. -/
structure Medium where
  ino : Nat × Nat
  ondisk : VolumeHeader
  deriving DecidableEq

/-- The devices that can be opened, by their path. -/
abbrev Media := Path → Option Medium

structure VolumeInfo where
  name : Path
  medium : Medium
  deriving DecidableEq

/-- The ways out through `err()` and `errx()`. -/
inductive Message where
  | failedToOpen (name : Path)
  | invalidSignature (signature : Nat)
  | invalidRootVolume (rootvol : Nat)
  | notHammer (name : Path) (fstype : Nat)
  | fsidMismatch (name : Path)
  | invalidVersion (name : Path) (version : Nat)
  | duplicateVolume (name : Path) (volNo : Int) (other : Path)
  | specifiedMoreThanOnce (name : Path)
  | volumeCount (header : Int) (specified : Nat)
  | noRootVolume
  deriving DecidableEq

inductive Fault where
  | assert
  | exit (message : Message)
  /-- No fault of the program: the labels were not followed any further. -/
  | fuel
  deriving DecidableEq

/-- `VolList`, `valid_hammer_volumes`, `Hammer_FSId` and `HammerVersion`. -/
structure State where
  vols : List VolumeInfo
  validVolumes : Nat
  fsid : Nat
  version : Nat
  deriving DecidableEq

def State.init : State := ⟨[], 0, 0, 2 ^ 32 - 1⟩

abbrev ParseM := StateT State (Except Fault)

def fail {α : Type} (f : Fault) : ParseM α := fun _ => .error f

def exitUnless (p : Prop) [Decidable p] (m : Message) : ParseM Unit :=
  if p then pure () else fail (.exit m)

/-- `HAMMER_FSBUF_VOLUME`. -/
def fsbufVolume : Nat := 0xC8414D4DC5523031

/-- `__verify_volume`. -/
def verifyVolume (host : Host) (name : Path) (ondisk : VolumeHeader) : ParseM Unit := do
  exitUnless (ondisk.signature = fsbufVolume) (.invalidSignature ondisk.signature)
  exitUnless (ondisk.rootvol = 0) (.invalidRootVolume ondisk.rootvol)
  exitUnless (ondisk.fstype = host.fsType) (.notHammer name ondisk.fstype)
  exitUnless (ondisk.fsid = (← get).fsid) (.fsidMismatch name)
  exitUnless (1 ≤ ondisk.version ∧ ondisk.version < 8) (.invalidVersion name ondisk.version)

/-- The body of the loop of `__add_volume`. -/
def clash (volume scan : VolumeInfo) : Option Message :=
  if scan.medium.ondisk.volNo = volume.medium.ondisk.volNo then
    some (.duplicateVolume volume.name volume.medium.ondisk.volNo scan.name)
  else if scan.medium.ino = volume.medium.ino then some (.specifiedMoreThanOnce volume.name)
  else none

@[simps]
def State.add (st : State) (volume : VolumeInfo) : State :=
  { st with vols := st.vols ++ [volume] }

/-- `__add_volume`. -/
def addVolume (volume : VolumeInfo) : ParseM Unit := do
  match (← get).vols.findSome? (clash volume) with
  | some m => fail (.exit m)
  | none => modify (·.add volume)

/-- What `load_volume` does to the globals before it verifies the volume. -/
def State.note (st : State) (ondisk : VolumeHeader) : State where
  vols := st.vols
  validVolumes := st.validVolumes + 1
  fsid := if st.validVolumes = 0 then ondisk.fsid else st.fsid
  version := if ondisk.volNo = 0 then ondisk.version else st.version

def verifyIf (host : Host) (verify : Bool) (name : Path) (ondisk : VolumeHeader) : ParseM Unit :=
  if verify then verifyVolume host name ondisk else pure ()

/-- `load_volume`. -/
def loadVolume (host : Host) (media : Media) (verify : Bool) (name : Path) :
    ParseM VolumeInfo := do
  match media name with
  | none => fail (.exit (.failedToOpen name))
  | some m =>
    modify (·.note m.ondisk)
    verifyIf host verify name m.ondisk
    addVolume ⟨name, m⟩
    pure ⟨name, m⟩

/-! ## The parser -/

section Parser

variable (host : Host) (media : Media) (verify : Bool)

/-- The loop of `__hammer_parse_blkdevs` over the elements of a list. `nested` is the call for
    the list a label stands for; the accumulator is `volume` and `vol_count`. -/
def loadElements (nested : Path → ParseM Unit) :
    List Path → Option VolumeInfo × Nat → ParseM (Option VolumeInfo × Nat)
  | [], acc => pure acc
  | e :: es, (volume, volCount) =>
    if ':' ∈ getdevpath host e then do
      nested (getdevpath host e)
      loadElements nested es (volume, volCount)
    else do
      let volume ← loadVolume host media verify (getdevpath host e)
      loadElements nested es (some volume, volCount + 1)

/-- The part behind the loop. -/
def checkVolumes (verifyCount : Bool) (volume : Option VolumeInfo) (volCount : Nat) :
    ParseM Unit := do
  match volume with
  | none => fail .assert
  | some volume =>
    if verifyCount then do
      exitUnless (volCount = volume.medium.ondisk.volCount)
        (.volumeCount volume.medium.ondisk.volCount volCount)
      exitUnless (∃ v ∈ (← get).vols, v.medium.ondisk.volNo = 0) .noRootVolume
    else pure ()

/-- `__hammer_parse_blkdevs`, with a bound on how deep labels are followed. -/
def parseBlkdevs (verifyCount : Bool) : Nat → Path → ParseM Unit
  | 0, _ => fail .fuel
  | depth + 1, blkdevs => do
    let (volume, volCount) ← loadElements host media verify (parseBlkdevs verifyCount depth)
      (blkdevs.splitOn ':') (none, 0)
    checkVolumes verifyCount volume volCount

end Parser

/-! ## What a specification stands for -/

section Meaning

variable (host : Host)

/-- What a name is a label for. -/
def label (devname : Path) : Option Path :=
  if Rooted devname then none
  else if host.lstat (devDir ++ devname) = true then none
  else finddevlabel host devname

/-- The path of a device that is not given by a label. -/
def devPath (devname : Path) : Path :=
  if Rooted devname then devname
  else if host.lstat (devDir ++ devname) = true then devDir ++ devname
  else devname

/-- The labels of a specification can be expanded in `depth` steps: there are no cycles. -/
def Settled : Nat → Path → Prop
  | 0, _ => False
  | depth + 1, blkdevs => ∀ e ∈ blkdevs.splitOn ':', ∀ p ∈ label host e, Settled depth p

/-- The devices of a specification, in order. -/
def leaves : Nat → Path → List Path
  | 0, _ => []
  | depth + 1, blkdevs => (blkdevs.splitOn ':').flatMap fun e =>
    match label host e with
    | none => [devPath host e]
    | some p => leaves depth p

/-- A path that stands for itself. -/
structure Plain (p : Path) : Prop where
  colon : ':' ∉ p
  label : label host p = none
  devPath : devPath host p = p

/-- Every label of the specification stands for one device, by its path. -/
def Flat (blkdevs : Path) : Prop :=
  ∀ e ∈ blkdevs.splitOn ':', ∀ p ∈ label host e, Plain host p

end Meaning

instance decidableSettled (host : Host) : (depth : Nat) → (blkdevs : Path) →
    Decidable (Settled host depth blkdevs)
  | 0, _ => .isFalse id
  | depth + 1, blkdevs =>
    have : ∀ p, Decidable (Settled host depth p) := decidableSettled host depth
    inferInstanceAs (Decidable (∀ e ∈ blkdevs.splitOn ':', ∀ p ∈ label host e, _))

/-- The devices of a list are loaded one after the other. -/
def loadAll (host : Host) (media : Media) (verify : Bool) : List Path → ParseM Unit
  | [] => pure ()
  | p :: ps => do
    let _ ← loadVolume host media verify p
    loadAll host media verify ps

/-- The headers of the devices all have one volume count. -/
def Agree (media : Media) (paths : List Path) : Prop :=
  ∃ c, ∀ p ∈ paths, ∀ m, media p = some m → m.ondisk.volCount = c

/-- The devices can be loaded, they are as many as the headers say, and the root volume is one of
    them. -/
def Accepts (host : Host) (media : Media) (verify : Bool) (paths : List Path) : Prop :=
  ∃ st, loadAll host media verify paths State.init = .ok ((), st) ∧
    (∀ v ∈ st.vols, v.medium.ondisk.volCount = paths.length) ∧
    ∃ v ∈ st.vols, v.medium.ondisk.volNo = 0

/-- The specification is taken for what it stands for: no assertion fails, what is loaded is the
    list of its devices in their order, and it is accepted just if they are a volume set. -/
structure Right (host : Host) (media : Media) (verify : Bool) (depth : Nat) (blkdevs : Path) :
    Prop where
  noAssert : parseBlkdevs host media verify true depth blkdevs State.init ≠ .error .assert
  inOrder : ∀ st, parseBlkdevs host media verify true depth blkdevs State.init = .ok ((), st) →
    st.vols.map VolumeInfo.name = leaves host depth blkdevs
  accepts : (∃ st, parseBlkdevs host media verify true depth blkdevs State.init = .ok ((), st)) ↔
    Accepts host media verify (leaves host depth blkdevs)

/-! ## Names -/

section Names

variable {host : Host} {e p : Path} {depth : Nat} {blkdevs : Path}

theorem not_mem_of_mem_splitOnP {α : Type} {q : α → Bool} {l x : List α} (hx : x ∈ l.splitOnP q) :
    ∀ a ∈ x, q a = false := by
  induction l generalizing x with
  | nil =>
    rw [List.splitOnP_nil, List.mem_singleton] at hx
    rw [hx]
    exact fun _ h => absurd h List.not_mem_nil
  | cons b l ih =>
    rw [List.splitOnP_cons_eq_if_modifyHead] at hx
    split_ifs at hx with hb
    · rcases List.mem_cons.mp hx with rfl | hx
      · exact fun _ h => absurd h List.not_mem_nil
      · exact ih hx
    · cases hs : l.splitOnP q with
      | nil => exact absurd hs (List.splitOnP_ne_nil q l)
      | cons y ys =>
        rw [hs, List.modifyHead_cons] at hx
        rw [hs] at ih
        rcases List.mem_cons.mp hx with rfl | hx
        · exact List.forall_mem_cons.mpr ⟨Bool.not_eq_true _ ▸ hb, ih List.mem_cons_self⟩
        · exact ih (List.mem_cons_of_mem _ hx)

theorem not_mem_element (he : e ∈ blkdevs.splitOn ':') : ':' ∉ e := fun h => by
  have := not_mem_of_mem_splitOnP he ':' h
  simp at this

theorem getdevpath_eq (host : Host) (e : Path) :
    getdevpath host e = (label host e).getD (devPath host e) := by
  unfold getdevpath label devPath
  split_ifs <;> rfl

theorem getdevpath_of_none (h : label host e = none) : getdevpath host e = devPath host e := by
  rw [getdevpath_eq, h, Option.getD_none]

theorem getdevpath_of_some (h : label host e = some p) : getdevpath host e = p := by
  rw [getdevpath_eq, h, Option.getD_some]

theorem rooted_devDir : Rooted (devDir ++ e) := Or.inl rfl

/-- The path of a device stands for itself. -/
theorem plain_devPath (hc : ':' ∉ e) (hl : label host e = none) : Plain host (devPath host e) := by
  have hself : ∀ p : Path, Rooted p → ':' ∉ p → Plain host p := fun p hr hp =>
    ⟨hp, if_pos hr, if_pos hr⟩
  unfold devPath
  split_ifs with h1 h2
  · exact hself e h1 hc
  · refine hself _ rooted_devDir ?_
    rw [List.mem_append, not_or]
    exact ⟨by decide, hc⟩
  · refine ⟨hc, hl, ?_⟩
    unfold devPath
    rw [if_neg h1, if_neg h2]

theorem plain_of_mem_leaves (hp : p ∈ leaves host depth blkdevs) : Plain host p := by
  induction depth generalizing blkdevs with
  | zero => exact absurd hp List.not_mem_nil
  | succ depth ih =>
    obtain ⟨e, he, hp⟩ := List.mem_flatMap.mp hp
    cases hl : label host e with
    | none =>
      rw [hl, List.mem_singleton] at hp
      rw [hp]
      exact plain_devPath (not_mem_element he) hl
    | some q =>
      rw [hl] at hp
      exact ih hp

theorem leaves_of_plain (h : Plain host p) : leaves host (depth + 1) p = [p] := by
  rw [leaves, List.splitOn_eq_singleton h.colon, List.flatMap_singleton, h.label, h.devPath]

/-- Only a label can lead to a list. -/
theorem colon_getdevpath (he : e ∈ blkdevs.splitOn ':') (hc : ':' ∈ getdevpath host e) :
    ∃ p, label host e = some p := by
  cases hl : label host e with
  | some p => exact ⟨p, rfl⟩
  | none =>
    rw [getdevpath_of_none hl] at hc
    exact absurd hc (plain_devPath (not_mem_element he) hl).colon

/-- The devices of a flat specification are those the parser comes to. -/
theorem leaves_of_flat (hs : Settled host (depth + 1) blkdevs) (hf : Flat host blkdevs) :
    leaves host (depth + 1) blkdevs = (blkdevs.splitOn ':').map (getdevpath host) := by
  rw [leaves, List.map_eq_flatMap]
  refine List.flatMap_congr fun e he => ?_
  cases hl : label host e with
  | none => rw [getdevpath_of_none hl]
  | some p =>
    have hp := hs e he p hl
    rw [getdevpath_of_some hl]
    cases depth with
    | zero => exact absurd hp id
    | succ depth => exact leaves_of_plain (hf e he p hl)

theorem colon_of_flat (hf : Flat host blkdevs) (he : e ∈ blkdevs.splitOn ':') :
    ':' ∉ getdevpath host e := fun hc => by
  obtain ⟨p, hl⟩ := colon_getdevpath he hc
  rw [getdevpath_of_some hl] at hc
  exact (hf e he p hl).colon hc

end Names

/-! ## Loading -/

section Loading

variable {host : Host} {media : Media} {verify : Bool} {name : Path} {paths : List Path}
  {st st' : State} {v : VolumeInfo} {u : Unit} {f : Fault}

theorem exitUnless_ok {p : Prop} [Decidable p] {m : Message} :
    exitUnless p m st = .ok (u, st') ↔ p ∧ st' = st := by
  unfold exitUnless
  split_ifs with h
  · rw [pure_ok_iff]
    exact ⟨fun ⟨_, e⟩ => ⟨h, e⟩, fun ⟨_, e⟩ => ⟨rfl, e⟩⟩
  · exact iff_of_false (fun h => by cases h) fun ⟨hp, _⟩ => h hp

theorem verifyVolume_ok {ondisk : VolumeHeader} :
    verifyVolume host name ondisk st = .ok (u, st') ↔
      (ondisk.signature = fsbufVolume ∧ ondisk.rootvol = 0 ∧ ondisk.fstype = host.fsType ∧
        ondisk.fsid = st.fsid ∧ 1 ≤ ondisk.version ∧ ondisk.version < 8) ∧ st' = st := by
  have hget : ∀ a t, (get : ParseM State) st = .ok (a, t) ↔ a = st ∧ t = st := by
    intro a t
    change Except.ok (st, st) = .ok (a, t) ↔ _
    simp [eq_comm]
  simp only [verifyVolume, bind_ok_iff, exitUnless_ok]
  constructor
  · rintro ⟨_, _, ⟨h1, rfl⟩, _, _, ⟨h2, rfl⟩, _, _, ⟨h3, rfl⟩, a, t, hg, _, _, ⟨h4, rfl⟩, h5, rfl⟩
    obtain ⟨rfl, rfl⟩ := (hget _ _).mp hg
    exact ⟨⟨h1, h2, h3, h4, h5⟩, rfl⟩
  · rintro ⟨⟨h1, h2, h3, h4, h5⟩, rfl⟩
    exact ⟨(), _, ⟨h1, rfl⟩, (), _, ⟨h2, rfl⟩, (), _, ⟨h3, rfl⟩, _, _, (hget _ _).mpr ⟨rfl, rfl⟩,
      (), _, ⟨h4, rfl⟩, h5, rfl⟩

theorem addVolume_ok : addVolume v st = .ok (u, st') ↔
    (∀ w ∈ st.vols, clash v w = none) ∧ st' = st.add v := by
  change (match st.vols.findSome? (clash v) with
    | some m => fail (.exit m)
    | none => modify fun st : State => st.add v : ParseM Unit) st = _ ↔ _
  rw [← List.findSome?_eq_none_iff]
  cases st.vols.findSome? (clash v) with
  | some m => exact iff_of_false (fun h => by cases h) fun h => nomatch h.1
  | none =>
    change Except.ok ((), st.add v) = .ok (u, st') ↔ _
    simp [eq_comm]

theorem loadVolume_ok (h : loadVolume host media verify name st = .ok (v, st')) :
    media name = some v.medium ∧ v.name = name ∧ st'.vols = st.vols ++ [v] := by
  unfold loadVolume at h
  cases hm : media name with
  | none =>
    rw [hm] at h
    cases h
  | some m =>
    simp only [hm, bind_ok_iff] at h
    obtain ⟨_, t1, h1, _, t2, h2, _, t3, h3, h4⟩ := h
    obtain ⟨rfl, rfl⟩ := pure_ok_iff.mp h4
    have ht1 : t1 = st.note m.ondisk := by
      cases h1
      rfl
    have ht2 : t2 = t1 := by
      unfold verifyIf at h2
      split_ifs at h2
      · exact (verifyVolume_ok.mp h2).2
      · exact (pure_ok_iff.mp h2).2
    obtain ⟨-, rfl⟩ := addVolume_ok.mp h3
    exact ⟨rfl, rfl, by rw [ht2, ht1]; rfl⟩

/-- A device that can be opened and passes the tests is loaded. -/
theorem loadVolume_run {m : Medium} (hm : media name = some m)
    (hv : verify = true →
      verifyVolume host name m.ondisk (st.note m.ondisk) = .ok ((), st.note m.ondisk))
    (hc : ∀ w ∈ st.vols, clash ⟨name, m⟩ w = none) :
    ∃ st', loadVolume host media verify name st = .ok (⟨name, m⟩, st') ∧
      st'.vols = st.vols ++ [⟨name, m⟩] ∧ st'.fsid = (st.note m.ondisk).fsid := by
  refine ⟨(st.note m.ondisk).add ⟨name, m⟩, ?_, rfl, rfl⟩
  have hver : verifyIf host verify name m.ondisk (st.note m.ondisk) =
      .ok ((), st.note m.ondisk) := by
    unfold verifyIf
    split_ifs with h
    · exact hv h
    · rfl
  have hadd : addVolume ⟨name, m⟩ (st.note m.ondisk) =
      .ok ((), (st.note m.ondisk).add ⟨name, m⟩) := addVolume_ok.mpr ⟨hc, rfl⟩
  unfold loadVolume
  rw [hm]
  refine bind_ok_iff.mpr ⟨(), st.note m.ondisk, rfl, ?_⟩
  rw [bind_of_ok hver, bind_of_ok hadd]
  rfl

theorem loadAll_ok (h : loadAll host media verify paths st = .ok (u, st')) :
    ∃ l, st'.vols = st.vols ++ l ∧ l.map VolumeInfo.name = paths ∧
      ∀ v ∈ l, media v.name = some v.medium := by
  induction paths generalizing st with
  | nil =>
    obtain ⟨-, rfl⟩ := pure_ok_iff.mp h
    exact ⟨[], (List.append_nil _).symm, rfl, fun _ h => absurd h List.not_mem_nil⟩
  | cons p ps ih =>
    obtain ⟨v, t, h1, h2⟩ := bind_ok_iff.mp h
    obtain ⟨hm, hname, hvols⟩ := loadVolume_ok h1
    obtain ⟨l, hl, hnames, hmed⟩ := ih h2
    refine ⟨v :: l, by rw [hl, hvols, List.append_assoc]; rfl, ?_, ?_⟩
    · rw [List.map_cons, hname, hnames]
    · intro w hw
      rcases List.mem_cons.mp hw with rfl | hw
      · rw [hname, hm]
      · exact hmed w hw

/-! ## Assertions -/

/-- No assertion fails, whatever the state. -/
def NoAssert {α : Type} (x : ParseM α) : Prop := ∀ st, Avoids (· = .assert) x st

theorem NoAssert.bind {α β : Type} {x : ParseM α} {g : α → ParseM β} (hx : NoAssert x)
    (hg : ∀ a, NoAssert (g a)) : NoAssert (x >>= g) := fun st =>
  avoids_bind.mpr ⟨hx st, fun a st _ => hg a st⟩

theorem noAssert_pure {α : Type} (a : α) : NoAssert (pure a : ParseM α) := fun _ => avoids_pure a

theorem noAssert_exit {α : Type} (m : Message) : NoAssert (fail (.exit m) : ParseM α) := by
  intro st f hf
  cases hf
  exact fun h => by cases h

theorem noAssert_get : NoAssert (get : ParseM State) := fun _ => avoids_of_ok rfl

theorem noAssert_modify (g : State → State) : NoAssert (modify g : ParseM PUnit) :=
  fun _ => avoids_of_ok rfl

theorem noAssert_exitUnless {p : Prop} [Decidable p] {m : Message} :
    NoAssert (exitUnless p m) := by
  unfold exitUnless
  split_ifs
  · exact noAssert_pure ()
  · exact noAssert_exit m

theorem noAssert_verifyVolume {ondisk : VolumeHeader} :
    NoAssert (verifyVolume host name ondisk) :=
  noAssert_exitUnless.bind fun _ => noAssert_exitUnless.bind fun _ =>
    noAssert_exitUnless.bind fun _ => noAssert_get.bind fun _ =>
      noAssert_exitUnless.bind fun _ => noAssert_exitUnless

theorem noAssert_addVolume : NoAssert (addVolume v) := by
  refine noAssert_get.bind fun st => ?_
  cases st.vols.findSome? (clash v) with
  | some m => exact noAssert_exit m
  | none => exact noAssert_modify _

theorem noAssert_loadVolume : NoAssert (loadVolume host media verify name) := by
  unfold loadVolume
  cases media name with
  | none => exact noAssert_exit _
  | some m =>
    refine (noAssert_modify _).bind fun _ => ?_
    refine NoAssert.bind ?_ fun _ => noAssert_addVolume.bind fun _ => noAssert_pure _
    unfold verifyIf
    split_ifs
    · exact noAssert_verifyVolume
    · exact noAssert_pure ()

end Loading

/-! ## The loop over the elements -/

section Elements

variable {host : Host} {media : Media} {verify verifyCount : Bool} {nested : Path → ParseM Unit}
  {es : List Path} {volume volume' : Option VolumeInfo} {n n' depth : Nat} {st st' : State}
  {u : Unit} {blkdevs : Path} {f : Fault}

/-- The element is loaded by the call that comes to it. -/
def Direct (host : Host) (e : Path) : Bool := decide (':' ∉ getdevpath host e)

/-- Every element adds a volume or more to the list, and the direct ones are counted. -/
theorem loadElements_loads
    (hn : ∀ p st u st', nested p st = .ok (u, st') → ∃ l, st'.vols = st.vols ++ l ∧ l ≠ [])
    (h : loadElements host media verify nested es (volume, n) st = .ok ((volume', n'), st')) :
    ∃ l, st'.vols = st.vols ++ l ∧ es.length ≤ l.length ∧ n' = n + es.countP (Direct host) ∧
      (volume' = volume ∧ n' = n ∨
        ∃ v ∈ l, volume' = some v ∧ media v.name = some v.medium) ∧
      ∀ e ∈ es, Direct host e = true → ∃ m, media (getdevpath host e) = some m := by
  induction es generalizing volume n st with
  | nil =>
    obtain ⟨e, rfl⟩ := pure_ok_iff.mp h
    cases e
    exact ⟨[], (List.append_nil _).symm, Nat.le_refl 0, rfl, Or.inl ⟨rfl, rfl⟩,
      fun _ h => absurd h List.not_mem_nil⟩
  | cons e es ih =>
    unfold loadElements at h
    split_ifs at h with hc
    · obtain ⟨_, t, h1, h2⟩ := bind_ok_iff.mp h
      obtain ⟨l1, hl1, hne⟩ := hn _ _ _ _ h1
      obtain ⟨l2, hl2, hlen, hcount, hvol, hmed⟩ := ih h2
      have hd : Direct host e = false := decide_eq_false (not_not_intro hc)
      have := List.length_pos_of_ne_nil hne
      refine ⟨l1 ++ l2, by rw [hl2, hl1, List.append_assoc], ?_, ?_, ?_, ?_⟩
      · rw [List.length_cons, List.length_append]
        omega
      · rw [hcount, List.countP_cons_of_neg (by simp [hd])]
      · exact hvol.imp_right fun ⟨v, hv, e⟩ => ⟨v, List.mem_append_right _ hv, e⟩
      · intro a ha hda
        rcases List.mem_cons.mp ha with rfl | ha
        · rw [hd] at hda
          cases hda
        · exact hmed a ha hda
    · obtain ⟨v, t, h1, h2⟩ := bind_ok_iff.mp h
      obtain ⟨hm, hname, hl1⟩ := loadVolume_ok h1
      obtain ⟨l2, hl2, hlen, hcount, hvol, hmed⟩ := ih h2
      have hd : Direct host e = true := decide_eq_true hc
      refine ⟨v :: l2, ?_, Nat.succ_le_succ hlen, ?_, ?_, ?_⟩
      · rw [hl2, hl1, List.append_assoc]
        rfl
      · rw [hcount, List.countP_cons_of_pos hd]
        omega
      · refine Or.inr ?_
        rcases hvol with ⟨rfl, -⟩ | ⟨w, hw, rfl, hwm⟩
        · exact ⟨v, List.mem_cons_self, rfl, by rw [hname, hm]⟩
        · exact ⟨w, List.mem_cons_of_mem _ hw, rfl, hwm⟩
      · intro a ha hda
        rcases List.mem_cons.mp ha with rfl | ha
        · exact ⟨_, hm⟩
        · exact hmed a ha hda

/-- A list is accepted at the number of volumes its own elements load. -/
theorem checkVolumes_ok (h : checkVolumes verifyCount volume n st = .ok (u, st')) :
    st' = st ∧ ∃ v, volume = some v ∧ (verifyCount = true →
      (n : Int) = v.medium.ondisk.volCount ∧ ∃ w ∈ st.vols, w.medium.ondisk.volNo = 0) := by
  cases volume with
  | none => cases h
  | some v =>
    unfold checkVolumes at h
    dsimp only at h
    split_ifs at h with hc
    · obtain ⟨_, _, h1, h2⟩ := bind_ok_iff.mp h
      obtain ⟨hn, rfl⟩ := exitUnless_ok.mp h1
      obtain ⟨a, t, hg, h3⟩ := bind_ok_iff.mp h2
      cases hg
      obtain ⟨hr, rfl⟩ := exitUnless_ok.mp h3
      exact ⟨rfl, v, rfl, fun _ => ⟨hn, hr⟩⟩
    · obtain ⟨-, rfl⟩ := pure_ok_iff.mp h
      exact ⟨rfl, v, rfl, fun hv => absurd hv hc⟩

theorem parseBlkdevs_loads
    (h : parseBlkdevs host media verify verifyCount depth blkdevs st = .ok (u, st')) :
    ∃ l, st'.vols = st.vols ++ l ∧ l ≠ [] := by
  induction depth generalizing blkdevs st u st' with
  | zero => cases h
  | succ depth ih =>
    obtain ⟨⟨volume, n⟩, t, h1, h2⟩ := bind_ok_iff.mp h
    obtain ⟨l, hl, hlen, -⟩ := loadElements_loads (fun _ _ _ _ => ih) h1
    obtain ⟨rfl, -⟩ := checkVolumes_ok h2
    refine ⟨l, hl, ?_⟩
    rintro rfl
    exact List.splitOn_ne_nil _ _ (List.eq_nil_of_length_eq_zero (Nat.le_zero.mp hlen))

/-- A specification that is accepted: the count in the header of one of its volumes is that of
    its direct elements, which can all be opened. -/
theorem parseBlkdevs_accepted
    (h : parseBlkdevs host media verify true (depth + 1) blkdevs st = .ok (u, st')) :
    ∃ l, st'.vols = st.vols ++ l ∧ (blkdevs.splitOn ':').length ≤ l.length ∧
      (∃ v ∈ l, media v.name = some v.medium ∧
        ((blkdevs.splitOn ':').countP (Direct host) : Int) = v.medium.ondisk.volCount) ∧
      ∀ e ∈ blkdevs.splitOn ':', Direct host e = true →
        ∃ m, media (getdevpath host e) = some m := by
  obtain ⟨⟨volume, n⟩, t, h1, h2⟩ := bind_ok_iff.mp h
  obtain ⟨l, hl, hlen, hcount, hvol, hmed⟩ :=
    loadElements_loads (fun _ _ _ _ => parseBlkdevs_loads) h1
  obtain ⟨rfl, v, hv, hchk⟩ := checkVolumes_ok h2
  rw [Nat.zero_add] at hcount
  rcases hvol with ⟨hnone, -⟩ | ⟨w, hw, hsome, hwm⟩
  · rw [hv] at hnone
    cases hnone
  · rw [hv] at hsome
    cases hsome
    exact ⟨l, hl, hlen, ⟨v, hw, hwm, by rw [← hcount]; exact (hchk rfl).1⟩, hmed⟩

/-! ### Flat lists -/

/-- What the loop does is what loading the devices one by one does. -/
theorem loadAll_flat (hf : ∀ e ∈ es, ':' ∉ getdevpath host e) :
    loadAll host media verify (es.map (getdevpath host)) st =
      (loadElements host media verify nested es (volume, n) st).map fun r => ((), r.2) := by
  induction es generalizing volume n st with
  | nil => rfl
  | cons e es ih =>
    rw [loadElements, if_neg (hf e List.mem_cons_self), List.map_cons, loadAll]
    cases h : loadVolume host media verify (getdevpath host e) st with
    | error f => rw [bind_error_iff.mpr (Or.inl h), bind_error_iff.mpr (Or.inl h)]; rfl
    | ok r =>
      rw [bind_of_ok h, bind_of_ok h]
      exact ih fun a ha => hf a (List.mem_cons_of_mem _ ha)

theorem noAssert_loadAll {paths : List Path} : NoAssert (loadAll host media verify paths) := by
  induction paths with
  | nil => exact noAssert_pure ()
  | cons p ps ih => exact noAssert_loadVolume.bind fun _ => ih

theorem noAssert_checkVolumes {v : VolumeInfo} :
    NoAssert (checkVolumes verifyCount (some v) n) := by
  unfold checkVolumes
  dsimp only
  split_ifs
  · exact noAssert_exitUnless.bind fun _ => noAssert_get.bind fun _ => noAssert_exitUnless
  · exact noAssert_pure ()

theorem checkVolumes_run {v : VolumeInfo} (hn : (n : Int) = v.medium.ondisk.volCount)
    (hr : ∃ w ∈ st.vols, w.medium.ondisk.volNo = 0) :
    checkVolumes true (some v) n st = .ok ((), st) :=
  bind_ok_iff.mpr ⟨(), st, exitUnless_ok.mpr ⟨hn, rfl⟩,
    bind_ok_iff.mpr ⟨st, st, rfl, exitUnless_ok.mpr ⟨hr, rfl⟩⟩⟩

end Elements

/-! ## Specifications -/

section Specifications

variable {host : Host} {media : Media} {verify : Bool} {depth : Nat} {blkdevs : Path}

/-- The loop over a flat list, when it comes to its end: it has loaded all devices, and `volume`
    is one of them. -/
theorem loadElements_flat {nested : Path → ParseM Unit} {volume : Option VolumeInfo} {n : Nat}
    {st : State} (hf : Flat host blkdevs)
    (hn : ∀ p st u st', nested p st = .ok (u, st') → ∃ l, st'.vols = st.vols ++ l ∧ l ≠ [])
    (h : loadElements host media verify nested (blkdevs.splitOn ':') (none, 0) State.init =
      .ok ((volume, n), st)) :
    n = (blkdevs.splitOn ':').length ∧ ∃ v ∈ st.vols, volume = some v := by
  obtain ⟨l, hl, -, hcount, hvol, -⟩ := loadElements_loads hn h
  have hall : (blkdevs.splitOn ':').countP (Direct host) = (blkdevs.splitOn ':').length :=
    List.countP_eq_length.mpr fun e he => decide_eq_true (colon_of_flat hf he)
  rw [Nat.zero_add, hall] at hcount
  refine ⟨hcount, ?_⟩
  rcases hvol with ⟨-, hzero⟩ | ⟨v, hv, hsome, -⟩
  · rw [hcount] at hzero
    exact absurd (List.eq_nil_of_length_eq_zero hzero) (List.splitOn_ne_nil _ _)
  · exact ⟨v, by rw [hl]; exact List.mem_append_right _ hv, hsome⟩

theorem flat_right (hs : Settled host depth blkdevs) (hf : Flat host blkdevs)
    (ha : Agree media (leaves host depth blkdevs)) : Right host media verify depth blkdevs := by
  cases depth with
  | zero => exact absurd hs id
  | succ depth =>
    have hdirect : ∀ e ∈ blkdevs.splitOn ':', ':' ∉ getdevpath host e :=
      fun e he => colon_of_flat hf he
    have hleaves := leaves_of_flat hs hf
    rw [hleaves] at ha
    have hload := @loadAll_flat host media verify (parseBlkdevs host media verify true depth) _
      none 0 State.init hdirect
    cases hloop : loadElements host media verify (parseBlkdevs host media verify true depth)
      (blkdevs.splitOn ':') (none, 0) State.init with
    | error f =>
      have hparse : parseBlkdevs host media verify true (depth + 1) blkdevs State.init =
          .error f := bind_error_iff.mpr (Or.inl hloop)
      rw [hloop] at hload
      refine ⟨?_, fun st h => ?_, ?_⟩
      · rw [hparse]
        exact fun h => noAssert_loadAll State.init f hload (Except.error.inj h)
      · rw [hparse] at h
        cases h
      · rw [hparse, hleaves]
        refine iff_of_false (fun ⟨_, h⟩ => by cases h) fun ⟨_, h, _⟩ => ?_
        rw [hload] at h
        cases h
    | ok out =>
      obtain ⟨⟨volume, n⟩, t⟩ := out
      rw [hloop] at hload
      obtain ⟨hn, v, hv, rfl⟩ := loadElements_flat hf (fun _ _ _ _ => parseBlkdevs_loads) hloop
      have hparse : parseBlkdevs host media verify true (depth + 1) blkdevs State.init =
          checkVolumes true (some v) n t := bind_of_ok hloop
      obtain ⟨l, hl, hnames, hmed⟩ := loadAll_ok hload
      rw [State.init, List.nil_append] at hl
      obtain ⟨c, hc⟩ := ha
      have hcount : ∀ w ∈ t.vols, w.medium.ondisk.volCount = c := by
        rw [hl]
        intro w hw
        refine hc w.name ?_ _ (hmed w hw)
        rw [← hnames]
        exact List.mem_map_of_mem hw
      refine ⟨?_, fun st h => ?_, ?_⟩
      · rw [hparse]
        exact fun h => noAssert_checkVolumes t _ h rfl
      · rw [hparse] at h
        rw [(checkVolumes_ok h).1, hl, hnames, hleaves]
      · rw [hparse, hleaves, Accepts, List.length_map, ← hn]
        constructor
        · rintro ⟨st, h⟩
          obtain ⟨-, w, hw, hchk⟩ := checkVolumes_ok h
          cases hw
          obtain ⟨heq, hroot⟩ := hchk rfl
          exact ⟨t, hload, fun w hw => by rw [hcount w hw, ← hcount v hv, heq], hroot⟩
        · rintro ⟨st, h, hall, hroot⟩
          rw [hload] at h
          cases h
          exact ⟨t, checkVolumes_run (hall v hv).symm hroot⟩

/-- The device with the volume of `p` on it, in a filesystem of as many volumes as `paths` has. -/
def placed (host : Host) (paths : List Path) (p : Path) : Medium :=
  ⟨(paths.idxOf p, 0), ⟨fsbufVolume, host.fsType, 0, 7, 0, paths.idxOf p, paths.length⟩⟩

/-- The devices of the list have the volumes of one filesystem on them, in order. -/
def numbered (host : Host) (paths : List Path) : Media := fun p =>
  if paths.contains p then some (placed host paths p) else none

variable {paths : List Path}

theorem numbered_eq_some {p : Path} {m : Medium} :
    numbered host paths p = some m ↔ p ∈ paths ∧ m = placed host paths p := by
  unfold numbered
  simp only [List.contains_iff_mem]
  split_ifs with h
  · simp [h, eq_comm]
  · simp [h]

theorem numbered_agree : Agree (numbered host paths) paths := by
  refine ⟨paths.length, fun p _ m hm => ?_⟩
  rw [(numbered_eq_some.mp hm).2]
  rfl

/-- Some of the volumes have been loaded. -/
structure Placed (host : Host) (paths : List Path) (st : State) : Prop where
  vols : ∀ w ∈ st.vols, w.name ∈ paths ∧ w.medium = placed host paths w.name
  fsid : st.validVolumes = 0 ∨ st.fsid = 0

theorem clash_placed {p : Path} {w : VolumeInfo} (hp : w.name ∈ paths)
    (hw : w.medium = placed host paths w.name) (hne : w.name ≠ p) :
    clash ⟨p, placed host paths p⟩ w = none := by
  have hidx : paths.idxOf w.name ≠ paths.idxOf p := fun e => hne ((List.idxOf_inj hp).mp e)
  unfold clash
  rw [hw, if_neg, if_neg]
  · exact fun e => hidx (Prod.mk.inj e).1
  · exact fun e => hidx (Int.ofNat_inj.mp e)

theorem loadVolume_placed {p : Path} {st : State} (hp : p ∈ paths) (h : Placed host paths st)
    (hne : ∀ w ∈ st.vols, w.name ≠ p) :
    ∃ st', loadVolume host (numbered host paths) verify p st =
      .ok (⟨p, placed host paths p⟩, st') ∧
      st'.vols = st.vols ++ [⟨p, placed host paths p⟩] ∧ Placed host paths st' := by
  have hnote : (if st.validVolumes = 0 then 0 else st.fsid) = 0 := by
    split_ifs with h0
    · rfl
    · exact h.fsid.resolve_left h0
  obtain ⟨st', hload, hvols, hfsid⟩ := @loadVolume_run host _ verify p st _
    (numbered_eq_some.mpr ⟨hp, rfl⟩)
    (fun _ => verifyVolume_ok.mpr ⟨⟨rfl, rfl, rfl, hnote.symm, (by decide : 1 ≤ 7),
      (by decide : 7 < 8)⟩, rfl⟩)
    fun w hw => clash_placed (h.vols w hw).1 (h.vols w hw).2 (hne w hw)
  refine ⟨st', hload, hvols, ?_, Or.inr (hfsid.trans hnote)⟩
  rw [hvols]
  intro w hw
  rcases List.mem_append.mp hw with hw | hw
  · exact h.vols w hw
  · rw [List.mem_singleton] at hw
    rw [hw]
    exact ⟨hp, rfl⟩

theorem loadAll_placed {rest : List Path} {st : State} (hsub : ∀ p ∈ rest, p ∈ paths)
    (hnd : rest.Nodup) (hnew : ∀ w ∈ st.vols, w.name ∉ rest) (h : Placed host paths st) :
    ∃ st', loadAll host (numbered host paths) verify rest st = .ok ((), st') ∧
      Placed host paths st' := by
  induction rest generalizing st with
  | nil => exact ⟨st, rfl, h⟩
  | cons p rest ih =>
    rw [List.nodup_cons] at hnd
    obtain ⟨st1, h1, hvols, hst1⟩ := @loadVolume_placed _ verify _ _ _
      (hsub p List.mem_cons_self) h fun w hw e => hnew w hw (e ▸ List.mem_cons_self)
    obtain ⟨st', h2, hst'⟩ := ih (fun q hq => hsub q (List.mem_cons_of_mem _ hq)) hnd.2 (by
      rw [hvols]
      intro w hw
      rcases List.mem_append.mp hw with hw | hw
      · exact fun hin => hnew w hw (List.mem_cons_of_mem _ hin)
      · rw [List.mem_singleton] at hw
        rw [hw]
        exact hnd.1) hst1
    exact ⟨st', bind_ok_iff.mpr ⟨_, st1, h1, h2⟩, hst'⟩

/-- Devices on which the volumes of one filesystem are found are a volume set. -/
theorem numbered_accepts (hnd : paths.Nodup) (hne : paths ≠ []) :
    Accepts host (numbered host paths) verify paths := by
  obtain ⟨st, hload, hst⟩ := @loadAll_placed host verify paths paths State.init (fun _ h => h) hnd
    (fun _ h => absurd h List.not_mem_nil) ⟨fun _ h => absurd h List.not_mem_nil, Or.inl rfl⟩
  obtain ⟨l, hl, hnames, -⟩ := loadAll_ok hload
  rw [State.init, List.nil_append] at hl
  refine ⟨st, hload, fun v hv => ?_, ?_⟩
  · rw [(hst.vols v hv).2]
    rfl
  · cases l with
    | nil => exact absurd hnames.symm hne
    | cons v l =>
      have hv : v ∈ st.vols := hl ▸ List.mem_cons_self
      refine ⟨v, hv, ?_⟩
      rw [(hst.vols v hv).2, ← hnames]
      change ((List.idxOf v.name (v.name :: l.map VolumeInfo.name) : Nat) : Int) = 0
      rw [List.idxOf_cons_self]
      rfl

theorem leaves_ne_nil (hs : Settled host depth blkdevs) : leaves host depth blkdevs ≠ [] := by
  induction depth generalizing blkdevs with
  | zero => exact absurd hs id
  | succ depth ih =>
    obtain ⟨e, es, hes⟩ := List.exists_cons_of_ne_nil (List.splitOn_ne_nil _ blkdevs)
    have he : e ∈ blkdevs.splitOn ':' := hes ▸ List.mem_cons_self
    rw [leaves, hes, List.flatMap_cons]
    refine List.append_ne_nil_of_left_ne_nil ?_ _
    cases hl : label host e with
    | none => exact List.cons_ne_nil _ _
    | some p => exact ih (hs e he p hl)

/-- If the devices of a specification are recognised when they are one filesystem, there is no
    list in it that is expanded. -/
theorem flat_of_right (hs : Settled host depth blkdevs)
    (hnd : (leaves host depth blkdevs).Nodup)
    (hr : Right host (numbered host (leaves host depth blkdevs)) verify depth blkdevs) :
    Flat host blkdevs := by
  cases depth with
  | zero => exact absurd hs id
  | succ depth =>
    obtain ⟨st, hst⟩ := hr.accepts.mpr (numbered_accepts hnd (leaves_ne_nil hs))
    have hnames := hr.inOrder st hst
    obtain ⟨l, hl, hlen, ⟨v, -, hvm, hcount⟩, hmed⟩ := parseBlkdevs_accepted hst
    rw [State.init, List.nil_append] at hl
    rw [hl] at hnames
    -- the direct elements alone are as many as the devices that were loaded in all
    have hall : ∀ e ∈ blkdevs.splitOn ':', Direct host e = true := by
      rw [← List.countP_eq_length]
      have hle := List.countP_le_length (p := Direct host) (l := blkdevs.splitOn ':')
      have hlength := congrArg List.length hnames
      rw [(numbered_eq_some.mp hvm).2] at hcount
      have hcount := Int.ofNat_inj.mp hcount
      rw [List.length_map] at hlength
      omega
    intro e he p hp
    obtain ⟨m, hm⟩ := hmed e he (hall e he)
    rw [getdevpath_of_some hp] at hm
    exact plain_of_mem_leaves (numbered_eq_some.mp hm).1

/-- A specification is taken for what it stands for, whatever the volumes on its devices are, just
    if every label in it stands for one device. -/
theorem parseBlkdevs_right_iff (host : Host) (verify : Bool) (depth : Nat) (blkdevs : Path)
    (hs : Settled host depth blkdevs) (hnd : (leaves host depth blkdevs).Nodup) :
    (∀ media, Agree media (leaves host depth blkdevs) → Right host media verify depth blkdevs) ↔
      Flat host blkdevs :=
  ⟨fun h => flat_of_right hs hnd (h _ numbered_agree), fun hf _ ha => flat_right hs hf ha⟩

end Specifications

/-- A devtab file with the lines `f path /a:/b` and `g path /b`. -/
def twoLabels : Host where
  lstat _ := false
  devtabs := [none, some (['f', ' ', 'p', 'a', 't', 'h', ' ', '/', 'a', ':', '/', 'b', '\n'] ++
    ['g', ' ', 'p', 'a', 't', 'h', ' ', '/', 'b', '\n']), none]
  fsType := 1

theorem twoLabels_flat : Flat twoLabels ['/', 'a', ':', 'g'] := by
  have hlabels : ∀ e ∈ List.splitOn ':' ['/', 'a', ':', 'g'], ∀ p ∈ label twoLabels e,
      p = ['/', 'b'] := by decide
  intro e he p hp
  obtain rfl := hlabels e he p hp
  exact ⟨by decide, by decide, by decide⟩

theorem parseBlkdevs_right_label : leaves twoLabels 2 ['/', 'a', ':', 'g'] = [['/', 'a'], ['/', 'b']] ∧
    Right twoLabels (numbered twoLabels [['/', 'a'], ['/', 'b']]) true 2 ['/', 'a', ':', 'g'] :=
  ⟨by decide, (parseBlkdevs_right_iff twoLabels true 2 ['/', 'a', ':', 'g'] (by decide)
    (by decide)).mpr twoLabels_flat _ numbered_agree⟩

/-- The label `f` alone. The inner call loads and counts its two devices, which are a volume set, and
    the outer one is left without a volume. -/
theorem parseBlkdevs_label_asserts :
    Settled twoLabels 2 ['f'] ∧ leaves twoLabels 2 ['f'] = [['/', 'a'], ['/', 'b']] ∧
      Accepts twoLabels (numbered twoLabels [['/', 'a'], ['/', 'b']]) true
        [['/', 'a'], ['/', 'b']] ∧
      parseBlkdevs twoLabels (numbered twoLabels [['/', 'a'], ['/', 'b']]) true true 2 ['f']
        State.init = .error .assert :=
  ⟨by decide, by decide, numbered_accepts (by decide) (by decide), rfl⟩

end Lh1.Hammer.Blkdevs
