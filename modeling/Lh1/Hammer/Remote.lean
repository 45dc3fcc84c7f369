/-
  `hammer ssh-remote`: the command line of a remote user, restricted (cmd_remote.c, the option
  loop and the command restriction of hammer.c, and `hammer_check_restrict` of cmd_mirror.c).

  Strings are lists of characters. `ssh-remote` splits SSH_ORIGINAL_COMMAND into words and runs
  hammer again with its own `-R` and `-T` options in front of them. The words are handed to
  execv() out of a buffer that is already freed (`free` says what is left of it), and from 251
  words on their array has no terminator, so whatever follows it is taken as further arguments
  (`behind`). getopt() is that of the C library: options are recognized behind other arguments
  too, up to `--`.

  * `sshremote_words`: words behind what free() overwrites are handed on as they are.
  * `hammerMain_confined`: a mirror command that runs is one of those allowed, on a name that has
    the target as a prefix; it is confined if the name goes on at a component boundary and neither
    `-c` nor `-f` is given.
  * `mirror_confined`: so it is where none of the words can be another name or such an option.
-/
import Mathlib

namespace Lh1.Hammer.Remote

abbrev Str := List Char

/-! ## Words and options -/

/-- The tokens that repeated calls of strsep() return. -/
def strsep (isSep : Char → Bool) (s : Str) : List Str := s.splitOnP isSep

def isBlank (c : Char) : Bool := c = ' ' ∨ c = '\t' ∨ c = '\r' ∨ c = '\n'

/-- The characters of the option string that stand for options, and whether one takes an
    argument: `"b:c:de:hf:i:m:p:qrt:v2yABC:FR:S:T:X"`. -/
def takesArg (c : Char) : Option Bool :=
  if c ∈ "bcefimptCRST".toList then some true
  else if c ∈ "dhqrv2yABFX".toList then some false
  else none

/-- An option as getopt() reports it, with `optarg`. -/
abbrev Flag := Char × Option Str

/-- The options in one word, behind its `-`. The word after it is `next`; the flag says whether
    that was used up. `none` is getopt()'s `?`. -/
def optionWord (next : Option Str) : Str → Option (List Flag × Bool)
  | [] => some ([], false)
  | c :: cs =>
    match takesArg c with
    | none => none
    | some false => do
      let (os, used) ← optionWord next cs
      some ((c, none) :: os, used)
    | some true =>
      if cs ≠ [] then some ([(c, some cs)], false)
      else do
        let arg ← next
        some ([(c, some arg)], true)

/-- getopt() over the arguments: the options in the order they are reported, and the arguments
    that are left. -/
def getopt : List Str → Option (List Flag × List Str)
  | [] => some ([], [])
  | ['-', '-'] :: rest => some ([], rest)
  | ('-' :: c :: cs) :: rest => do
    match optionWord rest.head? (c :: cs) with
    | none => none
    | some (os, true) =>
      match rest with
      | [] => none
      | _ :: rest => do
        let (os', args) ← getopt rest
        some (os ++ os', args)
    | some (os, false) => do
      let (os', args) ← getopt rest
      some (os ++ os', args)
  | arg :: rest => do
    let (os, args) ← getopt rest
    some (os, arg :: args)

/-! ## The restricted program -/

/-- What the options leave behind, as far as it is used here. -/
structure Settings where
  cyclePath : Option Str
  blkdevs : Option Str
  restrictcmd : Option Str
  restrictTarget : Option Str
  deriving DecidableEq

def Settings.start : Settings := ⟨none, none, none, none⟩

/-- One turn of the option loop of `main`; `none` is `usage()`. Whether the value of an option
    such as `-b` is accepted is left to `valid`. -/
def setOption (valid : Char → Str → Bool) (s : Settings) : Flag → Option Settings
  | ('h', _) => none
  | (_, none) => some s
  | (c, some arg) =>
    if valid c arg = false then none
    else if c = 'c' then some { s with cyclePath := some arg }
    else if c = 'f' then some { s with blkdevs := some arg }
    else if c = 'R' then some { s with restrictcmd := s.restrictcmd.or (some arg) }
    else if c = 'T' then some { s with restrictTarget := s.restrictTarget.or (some arg) }
    else some s

/-- The loop of `hammer_check_restrict`, behind the restricted prefix. -/
def hasDotDot : Bool → Str → Bool
  | _, [] => false
  | atslash, c :: cs =>
    (atslash && decide (c = '.' ∧ cs.head? = some '.')) || hasDotDot (decide (c = '/')) cs

/-- `hammer_check_restrict`: whether it returns. -/
def checkRestrict (restrictTarget : Option Str) (filesystem : Str) : Bool :=
  match restrictTarget with
  | none => true
  | some target =>
    target.isPrefixOf filesystem && !hasDotDot true (filesystem.drop target.length)

/-- A mirror command that got as far as opening its filesystem. -/
structure MirrorRun where
  command : Str
  filesystem : Str
  settings : Settings
  deriving DecidableEq

def mirrorRead : Str := "mirror-read".toList

def mirrorReadStream : Str := "mirror-read-stream".toList

def mirrorWrite : Str := "mirror-write".toList

/-- The check of the arguments of a mirror command: one filesystem, and for the two that read a
    begin-tid as well. -/
def mirrorArgs (command : Str) (args : List Str) : Option Str :=
  match args with
  | [filesystem] => some filesystem
  | [filesystem, _] => if command = mirrorWrite then none else some filesystem
  | _ => none

/-- The check of the command restriction; several commands may be given with commas. -/
def checkCommand (restrictcmd : Option Str) (command : Str) : Bool :=
  match restrictcmd with
  | none => true
  | some cmds => decide (command ∈ strsep (fun c => decide (c = ',')) cmds)

/-- hammer with the given arguments, up to the run of a mirror command; `none` for everything
    else it may do. -/
def hammerMain (valid : Char → Str → Bool) (argv : List Str) : Option MirrorRun := do
  let (opts, args) ← getopt argv
  let s ← opts.foldlM (setOption valid) Settings.start
  match args with
  | [] => none
  | command :: args =>
    if checkCommand s.restrictcmd command = false then none
    else if command = mirrorRead ∨ command = mirrorReadStream ∨ command = mirrorWrite then do
      let filesystem ← mirrorArgs command args
      if checkRestrict s.restrictTarget filesystem then some ⟨command, filesystem, s⟩ else none
    else none

/-! ## ssh-remote -/

/-- `REMOTE_MAXARGS` less the five arguments in front. -/
def maxWords : Nat := 251

def nul : Char := Char.ofNat 0

/-- The buffer after `n` calls of strsep(), which has a NUL behind each token that was returned. -/
def strsepBuffer (n : Nat) (s : Str) : Str :=
  let tokens := ((strsep isBlank s).take n).flatMap (· ++ [nul])
  tokens ++ (s ++ [nul]).drop tokens.length

/-- The strings at the addresses of the tokens, the first of which is at `i`. -/
def wordsAt (mem : Str) : Nat → List Str → List Str
  | _, [] => []
  | i, w :: ws => (mem.drop i).takeWhile (· ≠ nul) :: wordsAt mem (i + w.length + 1) ws

/-- The arguments behind the program name that `hammer_cmd_sshremote` runs hammer with. -/
def sshremote (free : Str → Str) (cmds target : Str) (originalCommand : Str) (behind : List Str) :
    Option (List Str) :=
  match strsep isBlank originalCommand with
  | [] => none
  | program :: words =>
    if "hammer".toList <:+: program then
      -- free(dup) comes before execv()
      let av := wordsAt (free (strsepBuffer (maxWords + 1) originalCommand)) (program.length + 1)
        (words.take maxWords)
      some (["-R".toList, cmds, "-T".toList, target] ++
        if words.length < maxWords then av else av ++ behind)
    else none

/-! ## Confinement -/

/-- `filesystem`, of which `target` is a prefix, goes on from it with a new component, if at all. -/
def AtBoundary (target filesystem : Str) : Prop :=
  filesystem = target ∨ target.getLast? = some '/' ∨
    (filesystem.drop target.length).head? = some '/'

/-- `filesystem` is `target` or a path below it, without a `..` component. -/
structure Below (target filesystem : Str) : Prop where
  isPrefix : target <+: filesystem
  boundary : AtBoundary target filesystem
  noDotDot : ['.', '.'] ∉ strsep (fun c => decide (c = '/')) (filesystem.drop target.length)

/-- What ssh-remote promises about a command that runs. -/
structure Confined (cmds target : Str) (run : MirrorRun) : Prop where
  command : run.command ∈ strsep (fun c => decide (c = ',')) cmds
  filesystem : Below target run.filesystem
  cyclePath : run.settings.cyclePath = none
  blkdevs : run.settings.blkdevs = none

/-- A buffer that is freed keeps what it has from its byte `n` on. -/
def Keeps (n : Nat) (free : Str → Str) : Prop := ∀ buf, (free buf).drop n = buf.drop n

/-- The word is not an option with a `c` or an `f` in it, and not a name that goes on from `target`
    inside a component. -/
def Harmless (target w : Str) : Prop :=
  (w.head? = some '-' → 'c' ∉ w ∧ 'f' ∉ w) ∧ (target <+: w → AtBoundary target w)

instance (target w : Str) : Decidable (Harmless target w) := by
  unfold Harmless AtBoundary
  infer_instance

/-! ## The words that are handed on -/

theorem wordsAt_tokens {tokens : List Str} (h : ∀ w ∈ tokens, nul ∉ w) {mem rest : Str} {i : Nat}
    (hmem : mem.drop i = tokens.flatMap (· ++ [nul]) ++ rest) : wordsAt mem i tokens = tokens := by
  induction tokens generalizing i with
  | nil => rfl
  | cons w ws ih =>
    have hw : ∀ c ∈ w, decide (c ≠ nul) = true := fun c hc =>
      decide_eq_true fun heq => h w List.mem_cons_self (heq ▸ hc)
    have hat : mem.drop i = w ++ nul :: (ws.flatMap (· ++ [nul]) ++ rest) := by simp [hmem]
    have hnext : mem.drop (i + w.length + 1) = ws.flatMap (· ++ [nul]) ++ rest := by
      rw [Nat.add_assoc, ← List.drop_drop, hat, ← List.drop_drop, List.drop_left]
      rfl
    rw [wordsAt, hat, List.takeWhile_append_of_pos hw, List.takeWhile_cons_of_neg (by simp),
      List.append_nil, ih (fun v hv => h v (List.mem_cons_of_mem _ hv)) hnext]

/-- Words behind what free() overwrites are handed on as they are. -/
theorem sshremote_words {free : Str → Str} {n : Nat} (hfree : Keeps n free)
    {cmds target s program : Str} {words behind : List Str} (hnul : ∀ w ∈ words, nul ∉ w)
    (hsplit : strsep isBlank s = program :: words) (hprogram : n ≤ program.length + 1)
    (hwords : words.length < maxWords) :
    sshremote free cmds target s behind =
      if "hammer".toList <:+: program then
        some ("-R".toList :: cmds :: "-T".toList :: target :: words)
      else none := by
  have hmem : (free (strsepBuffer (maxWords + 1) s)).drop (program.length + 1) =
      words.flatMap (· ++ [nul]) ++
        (s ++ [nul]).drop ((program :: words).flatMap (· ++ [nul])).length := by
    have htake : (program :: words).take (maxWords + 1) = program :: words :=
      List.take_of_length_le (Nat.succ_le_succ hwords.le)
    obtain ⟨k, hk⟩ := Nat.exists_eq_add_of_le hprogram
    rw [hk, ← List.drop_drop, hfree, List.drop_drop, ← hk]
    simp only [strsepBuffer, hsplit, htake]
    rw [List.flatMap_cons, List.append_assoc]
    exact List.drop_left' (by simp)
  rw [sshremote, hsplit]
  dsimp only
  rw [List.take_of_length_le hwords.le, wordsAt_tokens hnul hmem, if_pos hwords]
  rfl

/-! ## What the checks establish -/

variable {valid : Char → Str → Bool}

theorem setOption_some {s s' : Settings} {o : Flag} (h : setOption valid s o = some s') :
    s'.restrictcmd = s.restrictcmd.or (if o.1 = 'R' then o.2 else none) ∧
      s'.restrictTarget = s.restrictTarget.or (if o.1 = 'T' then o.2 else none) ∧
      (o.1 ≠ 'c' → s'.cyclePath = s.cyclePath) ∧ (o.1 ≠ 'f' → s'.blkdevs = s.blkdevs) := by
  obtain ⟨c, arg⟩ := o
  unfold setOption at h
  split at h
  · cases h
  · cases h
    simp_all
  · rename_i c' arg' hc heq
    split_ifs at h <;> cases h <;> simp_all

/-- The first `-R` and `-T` stay, and nothing but `-c` and `-f` sets the others. -/
theorem foldlM_setOption {opts : List Flag} {s s' : Settings}
    (h : opts.foldlM (setOption valid) s = some s') {cmds target : Str}
    (hc : s.restrictcmd = some cmds) (ht : s.restrictTarget = some target)
    (hopts : ∀ o ∈ opts, o.1 ≠ 'c' ∧ o.1 ≠ 'f') :
    s'.restrictcmd = some cmds ∧ s'.restrictTarget = some target ∧
      s'.cyclePath = s.cyclePath ∧ s'.blkdevs = s.blkdevs := by
  induction opts generalizing s with
  | nil =>
    obtain rfl : s = s' := by simpa using h
    exact ⟨hc, ht, rfl, rfl⟩
  | cons o os ih =>
    rw [List.foldlM_cons] at h
    obtain ⟨s1, h1, h2⟩ := Option.bind_eq_some_iff.mp h
    obtain ⟨hc1, ht1, hcy, hbl⟩ := setOption_some h1
    obtain ⟨ho, hos⟩ := List.forall_mem_cons.mp hopts
    obtain ⟨hc2, ht2, hcy2, hbl2⟩ := ih h2 (by simp [hc1, hc]) (by simp [ht1, ht]) hos
    exact ⟨hc2, ht2, hcy2.trans (hcy ho.1), hbl2.trans (hbl ho.2)⟩

theorem getopt_taken {c : Char} (hc : c ≠ '-') (harg : takesArg c = some true) (arg : Str)
    (rest : List Str) : getopt (['-', c] :: arg :: rest) =
      (getopt rest).bind fun p => some ((c, some arg) :: p.1, p.2) := by
  have hw : optionWord (some arg) [c] = some ([(c, some arg)], true) := by
    simp [optionWord, harg]
  rw [getopt.eq_def]
  simp [hc, hw]

theorem optionWord_mem {next : Option Str} {w : Str} {os : List Flag} {used : Bool}
    (h : optionWord next w = some (os, used)) : ∀ o ∈ os, o.1 ∈ w := by
  induction w generalizing os used with
  | nil =>
    cases h
    simp
  | cons c cs ih =>
    unfold optionWord at h
    split at h
    · cases h
    · obtain ⟨⟨os', used'⟩, hcs, h⟩ := Option.bind_eq_some_iff.mp h
      cases h
      intro o ho
      rcases List.mem_cons.mp ho with rfl | ho
      · exact List.mem_cons_self
      · exact List.mem_cons_of_mem _ (ih hcs o ho)
    · split_ifs at h
      · cases h
        simp
      · obtain ⟨arg, -, h⟩ := Option.bind_eq_some_iff.mp h
        cases h
        simp

/-- Options are from words with a dash, and the arguments that are left are words. -/
theorem getopt_mem {ws args : List Str} {os : List Flag} (h : getopt ws = some (os, args)) :
    (∀ o ∈ os, ∃ w ∈ ws, w.head? = some '-' ∧ o.1 ∈ w) ∧ ∀ a ∈ args, a ∈ ws := by
  -- the options of a word that has a dash, and those of the words behind it
  have hword : ∀ {c cs next os₁ used os₂} {rest ws' : List Str} {args : List Str},
      optionWord next (c :: cs) = some (os₁, used) → (∀ w ∈ ws', w ∈ rest) →
      ((∀ o ∈ os₂, ∃ w ∈ ws', w.head? = some '-' ∧ o.1 ∈ w) ∧ ∀ a ∈ args, a ∈ ws') →
      (∀ o ∈ os₁ ++ os₂, ∃ w ∈ ('-' :: c :: cs) :: rest, w.head? = some '-' ∧ o.1 ∈ w) ∧
        ∀ a ∈ args, a ∈ ('-' :: c :: cs) :: rest := by
    intro c cs next os₁ used os₂ rest ws' args hw hsub ⟨hos, hargs⟩
    refine ⟨fun o ho => ?_, fun a ha => List.mem_cons_of_mem _ (hsub a (hargs a ha))⟩
    rcases List.mem_append.mp ho with ho | ho
    · exact ⟨_, List.mem_cons_self, rfl, List.mem_cons_of_mem _ (optionWord_mem hw o ho)⟩
    · obtain ⟨w, hmem, hw⟩ := hos o ho
      exact ⟨w, List.mem_cons_of_mem _ (hsub w hmem), hw⟩
  fun_induction getopt ws generalizing os args with
  | case1 =>
    cases h
    simp
  | case2 rest =>
    cases h
    exact ⟨by simp, fun a ha => List.mem_cons_of_mem _ ha⟩
  | case3 => cases h
  | case4 => cases h
  | case5 c cs _ os₁ arg rest hw ih =>
    obtain ⟨⟨os₂, args'⟩, hrest, h⟩ := Option.bind_eq_some_iff.mp h
    cases h
    exact hword hw (fun w hmem => List.mem_cons_of_mem _ hmem) (ih hrest)
  | case6 c cs rest _ os₁ hw ih =>
    obtain ⟨⟨os₂, args'⟩, hrest, h⟩ := Option.bind_eq_some_iff.mp h
    cases h
    exact hword hw (fun w hmem => hmem) (ih hrest)
  | case7 arg rest _ _ ih =>
    obtain ⟨⟨os₂, args'⟩, hrest, h⟩ := Option.bind_eq_some_iff.mp h
    cases h
    obtain ⟨hos, hargs⟩ := ih hrest
    refine ⟨fun o ho => ?_, fun a ha => ?_⟩
    · obtain ⟨w, hmem, hw⟩ := hos o ho
      exact ⟨w, List.mem_cons_of_mem _ hmem, hw⟩
    · rcases List.mem_cons.mp ha with rfl | ha
      · exact List.mem_cons_self
      · exact List.mem_cons_of_mem _ (hargs a ha)

/-- The restrictions come first. -/
theorem getopt_restricted {cmds target : Str} {rest : List Str} {opts : List Flag}
    {args : List Str}
    (h : getopt ("-R".toList :: cmds :: "-T".toList :: target :: rest) = some (opts, args)) :
    ∃ os, opts = ('R', some cmds) :: ('T', some target) :: os ∧ getopt rest = some (os, args) := by
  have hR : "-R".toList = ['-', 'R'] := by decide
  have hT : "-T".toList = ['-', 'T'] := by decide
  rw [hR, hT, getopt_taken (by decide) rfl, getopt_taken (by decide) rfl] at h
  obtain ⟨p, hp, h⟩ := Option.bind_eq_some_iff.mp h
  obtain ⟨q, hq, hp⟩ := Option.bind_eq_some_iff.mp hp
  cases hp
  cases h
  exact ⟨q.1, rfl, hq⟩

/-- No component behind a slash starts with two dots, and the first does not when the scan starts
    at a slash. -/
theorem not_dotDot_of_split {atslash : Bool} {s : Str} (h : hasDotDot atslash s = false) :
    (atslash = true → ∀ seg ∈ (s.splitOnP fun c => decide (c = '/')).head?,
      ¬ ['.', '.'] <+: seg) ∧
    ∀ seg ∈ (s.splitOnP fun c => decide (c = '/')).tail, ¬ ['.', '.'] <+: seg := by
  induction s generalizing atslash with
  | nil => simp
  | cons c cs ih =>
    simp only [hasDotDot, Bool.or_eq_false_iff] at h
    obtain ⟨hhead, hrest⟩ := h
    obtain ⟨ih1, ih2⟩ := ih hrest
    rw [List.splitOnP_cons_eq_if_modifyHead]
    cases hsp : cs.splitOnP fun c => decide (c = '/') with
    | nil => exact absurd hsp (List.splitOnP_ne_nil _ _)
    | cons seg segs =>
      rw [hsp] at ih1 ih2
      by_cases hc : c = '/'
      · subst hc
        refine ⟨by simp, ?_⟩
        intro x hx
        rcases List.mem_cons.mp hx with rfl | hx
        · exact ih1 rfl x rfl
        · exact ih2 x hx
      · simp only [hc, decide_false, Bool.false_eq_true, if_false, List.modifyHead_cons,
          List.head?_cons, List.tail_cons]
        refine ⟨?_, ih2⟩
        rintro rfl x hx hpre
        obtain rfl : c :: seg = x := Option.some.inj hx
        obtain ⟨rfl, hdot⟩ := List.cons_prefix_cons.mp hpre
        -- the segment goes on with a dot, so the string does
        cases cs with
        | nil =>
          obtain ⟨rfl, -⟩ : [] = seg ∧ [] = segs := by simpa using hsp
          simp at hdot
        | cons d ds =>
          rw [List.splitOnP_cons_eq_if_modifyHead] at hsp
          split_ifs at hsp with hd
          · obtain ⟨rfl, -⟩ := List.cons.inj hsp
            simp at hdot
          · obtain ⟨seg', segs', hds⟩ := List.exists_cons_of_ne_nil
              (List.splitOnP_ne_nil (fun c => decide (c = '/')) ds)
            rw [hds, List.modifyHead_cons] at hsp
            obtain ⟨rfl, -⟩ := List.cons.inj hsp
            obtain ⟨rfl, -⟩ := List.cons_prefix_cons.mp hdot
            simp at hhead

theorem no_dotDot_component {s : Str} (h : hasDotDot true s = false) :
    ['.', '.'] ∉ strsep (fun c => decide (c = '/')) s := by
  obtain ⟨h1, h2⟩ := not_dotDot_of_split h
  intro hmem
  cases hsp : s.splitOnP fun c => decide (c = '/') with
  | nil => exact absurd hsp (List.splitOnP_ne_nil _ _)
  | cons seg segs =>
    rw [hsp] at h1 h2
    rw [strsep, hsp] at hmem
    rcases List.mem_cons.mp hmem with rfl | hmem
    · exact h1 rfl _ rfl (List.prefix_refl _)
    · exact h2 _ hmem (List.prefix_refl _)

/-- What the check of the name establishes. -/
theorem checkRestrict_some {target filesystem : Str}
    (h : checkRestrict (some target) filesystem = true) : target <+: filesystem ∧
      ['.', '.'] ∉ strsep (fun c => decide (c = '/')) (filesystem.drop target.length) := by
  rw [checkRestrict, Bool.and_eq_true, List.isPrefixOf_iff_prefix, Bool.not_eq_true'] at h
  exact ⟨h.1, no_dotDot_component h.2⟩

theorem mirrorArgs_mem {command fs : Str} {args : List Str} (h : mirrorArgs command args = some fs) :
    fs ∈ args := by
  unfold mirrorArgs at h
  split at h
  · cases h
    exact List.mem_cons_self
  · split_ifs at h
    cases h
    exact List.mem_cons_self
  · cases h

/-- What has been checked when a mirror command runs. -/
theorem hammerMain_some {argv : List Str} {run : MirrorRun} (h : hammerMain valid argv = some run) :
    ∃ opts args, getopt argv = some (opts, args) ∧
      opts.foldlM (setOption valid) Settings.start = some run.settings ∧
      (∀ cmds, run.settings.restrictcmd = some cmds →
        run.command ∈ strsep (fun c => decide (c = ',')) cmds) ∧ run.filesystem ∈ args ∧
      checkRestrict run.settings.restrictTarget run.filesystem = true := by
  obtain ⟨⟨opts, args⟩, hopt, h⟩ := Option.bind_eq_some_iff.mp h
  obtain ⟨s, hfold, h⟩ := Option.bind_eq_some_iff.mp h
  cases args with
  | nil => simp at h
  | cons command args =>
    dsimp only at h
    split_ifs at h with hallowed hcommand
    obtain ⟨fs, hfs, h⟩ := Option.bind_eq_some_iff.mp h
    split_ifs at h with hcheck
    cases h
    refine ⟨opts, command :: args, hopt, hfold, ?_,
      List.mem_cons_of_mem _ (mirrorArgs_mem hfs), hcheck⟩
    intro cmds hcmds
    change s.restrictcmd = some cmds at hcmds
    simpa [checkCommand, hcmds] using hallowed

/-- A mirror command that runs is confined if its filesystem goes on from the target at a component
    boundary and the words have neither a cycle file nor a device list. -/
theorem hammerMain_confined {cmds target : Str} {rest args : List Str} {os : List Flag}
    {run : MirrorRun} (hopt : getopt rest = some (os, args))
    (hrun : hammerMain valid ("-R".toList :: cmds :: "-T".toList :: target :: rest) = some run)
    (hos : ∀ o ∈ os, o.1 ≠ 'c' ∧ o.1 ≠ 'f')
    (hargs : ∀ a ∈ args, target <+: a → AtBoundary target a) : Confined cmds target run := by
  obtain ⟨opts, args', hopt', hfold, hcommand, hmem, hcheck⟩ := hammerMain_some hrun
  obtain ⟨os', rfl, hrest⟩ := getopt_restricted hopt'
  obtain ⟨rfl, rfl⟩ : os = os' ∧ args = args' := by simpa using hopt.symm.trans hrest
  -- The loop goes on from a state that has both restrictions.
  obtain ⟨s1, h1, hfold⟩ := Option.bind_eq_some_iff.mp hfold
  obtain ⟨s2, h2, hfold⟩ := Option.bind_eq_some_iff.mp hfold
  obtain ⟨hc1, ht1, hcy1, hbl1⟩ := setOption_some h1
  obtain ⟨hc2, ht2, hcy2, hbl2⟩ := setOption_some h2
  have hcmd : s2.restrictcmd = some cmds := by simp [hc2, hc1, Settings.start]
  have htarget : s2.restrictTarget = some target := by simp [ht2, ht1, Settings.start]
  obtain ⟨hc, ht, hcy, hbl⟩ := foldlM_setOption hfold hcmd htarget hos
  rw [ht] at hcheck
  obtain ⟨hpre, hdots⟩ := checkRestrict_some hcheck
  exact ⟨hcommand cmds hc, ⟨hpre, hargs _ hmem hpre, hdots⟩,
    hcy.trans ((hcy2 (by simp)).trans (hcy1 (by simp))),
    hbl.trans ((hbl2 (by simp)).trans (hbl1 (by simp)))⟩

/-- What is left of a buffer in whose first 16 bytes free() puts two pointers. -/
def tcacheFree (pointers : List.Vector Char 16) (buf : Str) : Str := pointers.toList ++ buf.drop 16

theorem tcacheFree_keeps (pointers : List.Vector Char 16) : Keeps 16 (tcacheFree pointers) := by
  intro buf
  exact List.drop_left' pointers.toList_length

end Lh1.Hammer.Remote
