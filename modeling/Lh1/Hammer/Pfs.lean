/-
  The `hammer pfs-*` commands (cmd_pfs.c): what they hold.

  Every outcome of a system call, and every property of the pfs data, is a choice, so that a
  command is the list of its execution paths. A path that ends in `err`, `errx`, `exit` or an
  assertion is not in it. `print_pfs_status` releases what it got and then calls `relpfs`. The
  texts printed are left out.

  * `released_once_iff`: a path of a command releases each thing it got once iff the command is
    not `pfs-status`.
-/
import Mathlib.Data.List.Basic

namespace Lh1.Hammer.Pfs

/-! ## Descriptors and buffers -/

/-- What happens to the descriptor and the buffer of the `getpfs` call with number `k`. -/
inductive Event
  | get (k : Nat)
  | close (k : Nat)
  | free (k : Nat)
  deriving DecidableEq

/-- The paths through a command, each with what has happened on it. -/
abbrev Cmd := StateT (List Event) List

def choice : Cmd Bool := fun log => [(true, log), (false, log)]

def exit {α : Type} : Cmd α := fun _ => []

def event (e : Event) : Cmd Unit := fun log => [((), log ++ [e])]

/-- A call that ends the process when it fails. -/
def orExit : Cmd Unit := do
  if ← choice then pure () else exit

/-- The fields of `struct hammer_ioc_pseudofs_rw` that matter here, and the descriptor. -/
structure Held where
  fd : Nat
  ondisk : Option Nat

/-- `getpfs`: the assertion of `scanpfsid`, `open` and the ioctl. -/
def getpfs : Cmd Held := do
  orExit
  orExit
  orExit
  let k := (← get).length
  event (.get k)
  pure ⟨k, some k⟩

def relpfs (pfs : Held) : Cmd Unit := do
  event (.close pfs.fd)
  match pfs.ondisk with
  | some b => event (.free b)
  | none => pure ()

/-- `dump_pfsd` has an early return and nothing else of interest. -/
def printPfsStatus : Cmd Unit := do
  let pfs ← getpfs
  let _ ← choice
  event (.close pfs.fd)
  match pfs.ondisk with
  | some b => event (.free b)
  | none => pure ()
  relpfs pfs

def printAll : List String → Cmd Unit
  | [] => pure ()
  | _ :: av => do
    printPfsStatus
    printAll av

/-- Without an argument the path is the current directory. -/
def pseudofsStatus : List String → Cmd Unit
  | [] => printPfsStatus
  | path :: av => printAll (path :: av)

/-- The options parse, a slave is not the root, and the new data is written and read back. -/
def pseudofsUpdate : List String → Cmd Unit
  | [] => exit
  | _ :: _ => do
    let pfs ← getpfs
    if ← choice then
      orExit
      orExit
      orExit
      orExit
    relpfs pfs

/-- The search for an unused id. -/
def findPfs : Nat → Cmd Unit
  | 0 => exit
  | n + 1 => do
    if ← choice then findPfs n else orExit

/-- The data of `pfs-master` and `pfs-slave` is a local variable and not from `getpfs`. -/
def pseudofsCreate : List String → Cmd Unit
  | [] => exit
  | path :: av => do
    -- the path does not exist and has no trailing slash, and its directory is in the root PFS
    orExit
    orExit
    orExit
    orExit
    findPfs 65536
    orExit
    if ← choice then
      if ← choice then pseudofsUpdate (path :: av)

/-- `pfs-upgrade` and `pfs-downgrade`: not the root, not so already, and the ioctl. -/
def pseudofsGrade : List String → Cmd Unit
  | [] => exit
  | _ :: _ => do
    let pfs ← getpfs
    orExit
    orExit
    orExit
    relpfs pfs

inductive Command
  | status
  | master
  | slave
  | update
  | upgrade
  | downgrade
  deriving DecidableEq

def Command.paths (av : List String) : Command → Cmd Unit
  | status => pseudofsStatus av
  | master | slave => pseudofsCreate av
  | update => pseudofsUpdate av
  | upgrade | downgrade => pseudofsGrade av

/-- Everything that was got is released exactly once. -/
def ReleasedOnce (log : List Event) : Prop :=
  ∀ k, .get k ∈ log → log.count (.close k) = 1 ∧ log.count (.free k) = 1

section

variable {av : List String} {log : List Event} {x : Unit × List Event}

theorem mem_bind {α : Type} {m : Cmd α} {f : α → Cmd Unit} (h : x ∈ (m >>= f) log) :
    ∃ a log', (a, log') ∈ m log ∧ x ∈ f a log' := by
  obtain ⟨⟨a, log'⟩, hm, hx⟩ := List.mem_flatMap.mp h
  exact ⟨a, log', hm, hx⟩

theorem mem_choice {f : Bool → Cmd Unit} (h : x ∈ (choice >>= f) log) :
    x ∈ f true log ∨ x ∈ f false log := by
  simpa [choice, bind, StateT.bind] using h

/-- `getpfs` followed by `relpfs`. -/
def cycle (k : Nat) : List Event := [.get k, .close k, .free k]

theorem pseudofsUpdate_log (h : x ∈ pseudofsUpdate av []) : x.2 = cycle 0 := by
  cases av with
  | nil => cases h
  | cons path av =>
    have he : pseudofsUpdate (path :: av) [] = List.replicate 2 ((), cycle 0) := rfl
    rw [he] at h
    rw [List.eq_of_mem_replicate h]

theorem pseudofsGrade_log (h : x ∈ pseudofsGrade av []) : x.2 = cycle 0 := by
  cases av with
  | nil => cases h
  | cons path av =>
    have he : pseudofsGrade (path :: av) [] = [((), cycle 0)] := rfl
    rw [he] at h
    rw [List.mem_singleton.mp h]

theorem findPfs_log (n : Nat) (h : x ∈ findPfs n []) : x.2 = [] := by
  induction n with
  | zero => cases h
  | succ n ih =>
    have he : findPfs (n + 1) [] = findPfs n [] ++ [((), [])] := rfl
    rw [he, List.mem_append, List.mem_singleton] at h
    rcases h with h | rfl
    · exact ih h
    · rfl

theorem pseudofsCreate_log (h : x ∈ pseudofsCreate av []) : x.2 = [] ∨ x.2 = cycle 0 := by
  cases av with
  | nil => cases h
  | cons path av =>
    have ho : orExit = pure () := rfl
    simp only [pseudofsCreate, ho, pure_bind] at h
    obtain ⟨_, log, hlog, hx⟩ := mem_bind h
    obtain rfl : log = [] := findPfs_log _ hlog
    rcases mem_choice hx with hx | hx
    · rcases mem_choice hx with hx | hx
      · exact .inr (@pseudofsUpdate_log (path :: av) x hx)
      · exact .inl (congrArg Prod.snd (List.mem_singleton.mp hx))
    · exact .inl (congrArg Prod.snd (List.mem_singleton.mp hx))

theorem printPfsStatus_log (h : x ∈ printPfsStatus log) :
    x.2 = log ++ (cycle log.length ++ [.close log.length, .free log.length]) := by
  have he : printPfsStatus log = List.replicate 2 ((), log ++ [.get log.length] ++
    [.close log.length] ++ [.free log.length] ++ [.close log.length] ++ [.free log.length]) := rfl
  rw [he] at h
  rw [List.eq_of_mem_replicate h]
  simp [cycle]

theorem printAll_log (h : x ∈ printAll av log) : ∃ rest, x.2 = log ++ rest := by
  induction av generalizing log with
  | nil =>
    rw [List.mem_singleton.mp h]
    exact ⟨[], (List.append_nil _).symm⟩
  | cons path av ih =>
    obtain ⟨_, log', hlog, hx⟩ := mem_bind h
    obtain ⟨rest, hrest⟩ := ih hx
    have hp : log' = _ := printPfsStatus_log hlog
    rw [hrest, hp, List.append_assoc]
    exact ⟨_, rfl⟩

/-- What the first path got is closed twice. -/
theorem pseudofsStatus_log (h : x ∈ pseudofsStatus av []) :
    ∃ rest, x.2 = cycle 0 ++ .close 0 :: rest := by
  cases av with
  | nil => exact ⟨_, printPfsStatus_log h⟩
  | cons path av =>
    obtain ⟨_, log, hlog, hx⟩ := mem_bind h
    obtain ⟨rest, hrest⟩ := printAll_log hx
    have hp : log = _ := printPfsStatus_log hlog
    rw [hrest, hp]
    exact ⟨_, rfl⟩

theorem ReleasedOnce.of_log (h : log = [] ∨ log = cycle 0) : ReleasedOnce log := by
  intro k hk
  rcases h with rfl | rfl
  · cases hk
  · obtain rfl : k = 0 := by simpa [cycle] using hk
    exact ⟨rfl, rfl⟩

end

/-- On a path that returns, each descriptor and each buffer is released exactly once iff the
    command is not `pfs-status`. -/
theorem released_once_iff (c : Command) (av : List String) (log : List Event)
    (h : ((), log) ∈ c.paths av []) : ReleasedOnce log ↔ c ≠ .status := by
  cases c with
  | status =>
    obtain ⟨rest, rfl⟩ := pseudofsStatus_log h
    refine ⟨fun hr => ?_, fun hc => absurd rfl hc⟩
    have h1 := (hr 0 (by simp [cycle])).1
    simp [cycle] at h1
  | master | slave => exact ⟨fun _ => by decide, fun _ => .of_log (pseudofsCreate_log h)⟩
  | update => exact ⟨fun _ => by decide, fun _ => .of_log (.inr (pseudofsUpdate_log h))⟩
  | upgrade | downgrade =>
    exact ⟨fun _ => by decide, fun _ => .of_log (.inr (pseudofsGrade_log h))⟩

theorem released_once_update : ReleasedOnce (cycle 0) :=
  (released_once_iff .update ["/pfs"] (cycle 0) (by decide)).mpr (by decide)

/-- `hammer pfs-status` without an argument frees its buffer twice. -/
theorem status_double_free :
    ∃ log, ((), log) ∈ Command.status.paths [] [] ∧ ¬ ReleasedOnce log :=
  ⟨cycle 0 ++ [.close 0, .free 0], by decide, fun h => absurd (h 0 (by decide)).2 (by decide)⟩

end Lh1.Hammer.Pfs
