/-
  How `hammer recover` builds a path (recover_path and recover_path_helper of cmd_recover.c).

  The path of an entry goes up its parents until there is none or one that is being visited
  already. It is built in two passes over the same recursion: the first adds up the length, an
  `int`, and the second writes the bytes, each string with its NUL, which the next character
  overwrites. Both passes mark the entries they are in with DICTF_TRAVERSED.

  * `figure_eq`, `load_eq`: each pass visits the same entries, and leaves the marks as they were.
  * `recover_path_length_iff`: the second pass writes as many bytes as the first has counted, if
    that number fits an `int`, and only then.
  * `recoverPath_eq`: the text is the path that the rest of the development speaks about.
-/
import Lh1.Hammer.Recover

namespace Lh1.Hammer.Recover

open Lib

/-! ## The source -/

def strlen (s : Bytes) : Nat := (cString s).length

/-- STRLEN_PFSID, the length of `"PFS%05d"`. -/
def strlenPfsid : Nat := 8

/-- STRLEN_OBJID, the length of `"obj_0x%016jx"`. -/
def strlenObjid : Nat := 22

/-- The parent to go on with: one that is there and does not have the mark. -/
def nextUp (dicts : List Dict) (traversed : Finset Nat) (i : Nat) : Option Nat :=
  match (dicts.getD i default).parent with
  | none => none
  | some p => if p < dicts.length ∧ p ∉ traversed then some p else none

theorem nextUp_some {dicts : List Dict} {traversed : Finset Nat} {i p : Nat}
    (h : nextUp dicts traversed i = some p) : p < dicts.length ∧ p ∉ traversed := by
  rw [nextUp] at h
  split at h
  · cases h
  · split at h
    · cases h
      assumption
    · cases h

def Dict.figureLen (d : Dict) : Nat :=
  if d.objId = objidRoot then strlenPfsid
  else
    match d.name with
    | some name => strlen name
    | none => strlenObjid

/-- `recover_path_helper` in the state PI_FIGURE: the marks and `info->len`. -/
def figure (targetDir : Path) (dicts : List Dict) (traversed : Finset Nat) (i : Nat) (len : Int) :
    Finset Nat × Int :=
  let len := int32 (int32 (len + (dicts.getD i default).figureLen) + 1)
  let r :=
    match _h : nextUp dicts (insert i traversed) i with
    | some p => figure targetDir dicts (insert i traversed) p len
    | none => (insert i traversed, int32 (len + (strlen targetDir + 1 : Nat)))
  (r.1.erase i, r.2)
  termination_by (Finset.range dicts.length \ insert i traversed).card
  decreasing_by exact card_untraversed_lt (nextUp_some _h).1 (nextUp_some _h).2

/-- The bytes written from `info->base` on, and `info->next`. -/
structure Load where
  mem : Bytes
  next : Nat
  deriving DecidableEq

/-- Bytes are written at `next`. -/
def Load.put (l : Load) (bs : Bytes) : Load :=
  { l with mem := l.mem.take l.next ++ bs ++ l.mem.drop (l.next + bs.length) }

/-- `*info->next++ = c`. -/
def Load.putc (l : Load) (c : UInt8) : Load := ⟨(l.put [c]).mem, l.next + 1⟩

/-- `strcpy(info->next, s); info->next += strlen(info->next);` -/
def Load.strcpy (l : Load) (s : Bytes) : Load :=
  let l := l.put (cString s ++ [0])
  { l with next := l.next + strlen (l.mem.drop l.next) }

/-- The string that a path element is written from. `snprintf` cuts what it makes. -/
def Dict.loadName (d : Dict) (pfsId : UInt16) : Bytes :=
  if d.objId = objidRoot then (pfsName pfsId).take strlenPfsid
  else
    match d.name with
    | some name => name
    | none => (objName d.objId).take strlenObjid

/-- `recover_path_helper` in the state PI_LOAD. -/
def load (targetDir : Path) (pfsId : UInt16) (dicts : List Dict) (traversed : Finset Nat) (i : Nat)
    (l : Load) : Finset Nat × Load :=
  let r :=
    match _h : nextUp dicts (insert i traversed) i with
    | some p => load targetDir pfsId dicts (insert i traversed) p l
    | none => (insert i traversed, l.strcpy targetDir)
  (r.1.erase i, (r.2.putc slash).strcpy ((dicts.getD i default).loadName pfsId))
  termination_by (Finset.range dicts.length \ insert i traversed).card
  decreasing_by exact card_untraversed_lt (nextUp_some _h).1 (nextUp_some _h).2

/-- What `recover_path` has computed: `info.len`, the bytes it wrote, and the marks. -/
structure PathInfo where
  len : Int
  mem : Bytes
  traversed : Finset Nat

def recoverPath (targetDir : Path) (dicts : List Dict) (traversed : Finset Nat) (i : Nat) :
    PathInfo :=
  let f := figure targetDir dicts traversed i 0
  let l := load targetDir (dicts.getD i default).pfsId dicts f.1 i ⟨[], 0⟩
  ⟨f.2, l.2.mem, l.1⟩

/-- What is returned: `malloc(info.len)` has room for that many bytes, and for none when the length
    is negative. -/
def PathInfo.result (info : PathInfo) : Option Bytes :=
  if (info.mem.length : Int) ≤ info.len then some info.mem else none

/-! ## The text -/

/-- The entries that a path goes through, from the entry itself up: the parents, as long as they
    are there and are not in the path already. -/
def chain (dicts : List Dict) (traversed : Finset Nat) (i : Nat) : List Nat :=
  i :: (match _h : nextUp dicts (insert i traversed) i with
    | some p => chain dicts (insert i traversed) p
    | none => [])
  termination_by (Finset.range dicts.length \ insert i traversed).card
  decreasing_by exact card_untraversed_lt (nextUp_some _h).1 (nextUp_some _h).2

/-- The path element of an entry, behind a slash. -/
def element (pfsId : UInt16) (dicts : List Dict) (i : Nat) : Path :=
  slash :: cString ((dicts.getD i default).loadName pfsId)

/-- The target directory and the path elements below it. -/
def pathText (targetDir : Path) (pfsId : UInt16) (dicts : List Dict) (traversed : Finset Nat)
    (i : Nat) : Path :=
  cString targetDir ++ (chain dicts traversed i).reverse.flatMap (element pfsId dicts)

theorem cString_eq_self {s : Bytes} (h : (0 : UInt8) ∉ s) : cString s = s := by
  rw [cString, List.takeWhile_eq_self_iff]
  intro c hc
  simp only [ne_eq, decide_not, Bool.not_eq_true', decide_eq_false_iff_not]
  rintro rfl
  exact h hc

theorem zero_notMem_cString (s : Bytes) : (0 : UInt8) ∉ cString s := by
  intro h
  have := List.mem_takeWhile_imp h
  simp at this

theorem digit_ne_zero {n : Nat} (h : n < 16) : digit n ≠ 0 := by
  interval_cases n <;> decide

theorem zero_notMem_digits {base : Nat} (hpos : 0 < base) (hle : base ≤ 16) (width n : Nat) :
    (0 : UInt8) ∉ digits base width n := by
  induction width generalizing n with
  | zero => simp [digits]
  | succ width ih =>
    rw [digits, List.mem_append, List.mem_singleton]
    rintro (h | h)
    · exact ih _ h
    · exact digit_ne_zero ((Nat.mod_lt n hpos).trans_le hle) h.symm

theorem length_digits (base width n : Nat) : (digits base width n).length = width := by
  induction width generalizing n with
  | zero => rfl
  | succ width ih => rw [digits, List.length_append, ih]; rfl

/-- The numbers always have the digits that the two lengths count. -/
theorem cString_pfsName (pfsId : UInt16) :
    cString ((pfsName pfsId).take strlenPfsid) = pfsName pfsId := by
  have hlen : (pfsName pfsId).length = strlenPfsid := by
    rw [pfsName, List.length_append, length_digits]
    rfl
  rw [← hlen, List.take_length, cString_eq_self]
  rw [pfsName, List.mem_append]
  rintro (h | h)
  · revert h
    decide
  · exact zero_notMem_digits (by decide) (by decide) 5 _ h

theorem cString_objName (objId : UInt64) :
    cString ((objName objId).take strlenObjid) = objName objId := by
  have hlen : (objName objId).length = strlenObjid := by
    rw [objName, List.length_append, length_digits]
    rfl
  rw [← hlen, List.take_length, cString_eq_self]
  rw [objName, List.mem_append]
  rintro (h | h)
  · revert h
    decide
  · exact zero_notMem_digits (by decide) (by decide) 16 _ h

theorem length_loadName (d : Dict) (pfsId : UInt16) :
    (cString (d.loadName pfsId)).length = d.figureLen := by
  rw [Dict.loadName, Dict.figureLen]
  split
  · rw [cString_pfsName, pfsName, List.length_append, length_digits]
    rfl
  · split
    · rfl
    · rw [cString_objName, objName, List.length_append, length_digits]
      rfl

/-! ## Going up -/

section Up

variable {targetDir : Path} {pfsId : UInt16} {dicts : List Dict} {traversed : Finset Nat} {i p : Nat}
  {len : Int} {l : Load}

/-- Induction along the parents: every turn marks one more entry. -/
theorem up_induction {P : Finset Nat → Nat → Prop} (dicts : List Dict)
    (top : ∀ traversed i, nextUp dicts (insert i traversed) i = none → P traversed i)
    (up : ∀ traversed i p, nextUp dicts (insert i traversed) i = some p →
      P (insert i traversed) p → P traversed i) (traversed : Finset Nat) (i : Nat) :
    P traversed i := by
  induction hm : (Finset.range dicts.length \ insert i traversed).card using
    Nat.strong_induction_on generalizing traversed i with
  | _ m ih =>
    cases hn : nextUp dicts (insert i traversed) i with
    | none => exact top traversed i hn
    | some p =>
      have hlt := card_untraversed_lt (nextUp_some hn).1 (nextUp_some hn).2
      exact up traversed i p hn (ih _ (hm ▸ hlt) (insert i traversed) p rfl)

theorem figure_none (h : nextUp dicts (insert i traversed) i = none) :
    figure targetDir dicts traversed i len = ((insert i traversed).erase i,
      int32 (int32 (int32 (len + (dicts.getD i default).figureLen) + 1) +
        (strlen targetDir + 1 : Nat))) := by
  rw [figure]
  split
  · rename_i hp
    rw [h] at hp
    cases hp
  · rfl

theorem figure_some (h : nextUp dicts (insert i traversed) i = some p) :
    figure targetDir dicts traversed i len =
      ((figure targetDir dicts (insert i traversed) p
        (int32 (int32 (len + (dicts.getD i default).figureLen) + 1))).1.erase i,
      (figure targetDir dicts (insert i traversed) p
        (int32 (int32 (len + (dicts.getD i default).figureLen) + 1))).2) := by
  rw [figure]
  split
  · rename_i hp
    rw [h] at hp
    cases hp
    rfl
  · rename_i hp
    rw [h] at hp
    cases hp

theorem load_none (h : nextUp dicts (insert i traversed) i = none) :
    load targetDir pfsId dicts traversed i l = ((insert i traversed).erase i,
      ((l.strcpy targetDir).putc slash).strcpy ((dicts.getD i default).loadName pfsId)) := by
  rw [load]
  split
  · rename_i hp
    rw [h] at hp
    cases hp
  · rfl

theorem load_some (h : nextUp dicts (insert i traversed) i = some p) :
    load targetDir pfsId dicts traversed i l =
      ((load targetDir pfsId dicts (insert i traversed) p l).1.erase i,
        ((load targetDir pfsId dicts (insert i traversed) p l).2.putc slash).strcpy
          ((dicts.getD i default).loadName pfsId)) := by
  rw [load]
  split
  · rename_i hp
    rw [h] at hp
    cases hp
    rfl
  · rename_i hp
    rw [h] at hp
    cases hp

theorem chain_none (h : nextUp dicts (insert i traversed) i = none) :
    chain dicts traversed i = [i] := by
  rw [chain]
  split
  · rename_i hp
    rw [h] at hp
    cases hp
  · rfl

theorem chain_some (h : nextUp dicts (insert i traversed) i = some p) :
    chain dicts traversed i = i :: chain dicts (insert i traversed) p := by
  rw [chain]
  split
  · rename_i hp
    rw [h] at hp
    cases hp
    rfl
  · rename_i hp
    rw [h] at hp
    cases hp

theorem pathText_none (h : nextUp dicts (insert i traversed) i = none) :
    pathText targetDir pfsId dicts traversed i = cString targetDir ++ element pfsId dicts i := by
  rw [pathText, chain_none h]
  simp

theorem pathText_some (h : nextUp dicts (insert i traversed) i = some p) :
    pathText targetDir pfsId dicts traversed i =
      pathText targetDir pfsId dicts (insert i traversed) p ++ element pfsId dicts i := by
  rw [pathText, pathText, chain_some h]
  simp

theorem length_element (pfsId : UInt16) (dicts : List Dict) (i : Nat) :
    (element pfsId dicts i).length = (dicts.getD i default).figureLen + 1 := by
  rw [element, List.length_cons, length_loadName]

/-! ## The first pass -/

theorem int32_add (x y : Int) : int32 (int32 x + y) = int32 (x + y) := Int.bmod_add_bmod

/-- The first pass adds the length of the text and of its NUL, and takes its marks back. -/
theorem figure_eq (pfsId : UInt16) (hi : i ∉ traversed) :
    figure targetDir dicts traversed i len =
      (traversed, int32 (len + ((pathText targetDir pfsId dicts traversed i).length + 1 : Nat))) := by
  revert hi len
  refine up_induction (P := fun traversed i => ∀ {len : Int}, i ∉ traversed →
    figure targetDir dicts traversed i len = (traversed,
      int32 (len + ((pathText targetDir pfsId dicts traversed i).length + 1 : Nat))))
    dicts ?_ ?_ traversed i
  · intro traversed i hn len hi
    rw [figure_none hn, pathText_none hn, Finset.erase_insert hi, int32_add, add_assoc (int32 _),
      int32_add, List.length_append, length_element, strlen]
    push_cast
    congr 2
    ring
  · intro traversed i p hp ih len hi
    rw [figure_some hp, pathText_some hp, ih (nextUp_some hp).2, Finset.erase_insert hi, int32_add,
      add_assoc (int32 _), int32_add, List.length_append, length_element]
    push_cast
    congr 2
    ring

/-! ## The second pass -/

/-- Some text has been written, and its NUL. -/
def Load.At (l : Load) (text : Bytes) : Prop := l.mem = text ++ [0] ∧ l.next = text.length

theorem strlen_append {s : Bytes} (h : (0 : UInt8) ∉ s) : strlen (s ++ [0]) = s.length := by
  have hall : ∀ c ∈ s, decide (c ≠ (0 : UInt8)) = true := by
    intro c hc
    simp only [decide_eq_true_eq]
    rintro rfl
    exact h hc
  rw [strlen, cString, List.takeWhile_append_of_pos hall]
  simp

/-- A string is written behind the text, over whatever is there if that is not longer. -/
theorem Load.strcpy_at (text : Bytes) {s : Bytes} (hmem : l.mem.length ≤ text.length + 1)
    (htake : l.mem.take l.next = text) (hnext : l.next = text.length) :
    (l.strcpy s).At (text ++ cString s) := by
  have hput : (l.put (cString s ++ [0])).mem = text ++ (cString s ++ [0]) := by
    rw [Load.put, htake, List.drop_eq_nil_of_le, List.append_nil]
    rw [List.length_append, List.length_singleton, hnext]
    omega
  have hdrop : ((l.put (cString s ++ [0])).mem).drop l.next = cString s ++ [0] := by
    rw [hput, hnext, List.drop_left]
  refine ⟨?_, ?_⟩
  · change (l.put (cString s ++ [0])).mem = _
    rw [hput, List.append_assoc]
  · change l.next + strlen ((l.put (cString s ++ [0])).mem.drop l.next) = _
    rw [hdrop, strlen_append (zero_notMem_cString s), hnext, List.length_append]

/-- A path element is written behind the text. -/
theorem Load.At.element {text : Bytes} (h : l.At text) (s : Bytes) :
    ((l.putc slash).strcpy s).At (text ++ slash :: cString s) := by
  obtain ⟨hmem, hnext⟩ := h
  have hput : (l.putc slash).mem = text ++ [slash] := by
    change l.mem.take l.next ++ [slash] ++ l.mem.drop (l.next + 1) = _
    rw [hmem, hnext, List.take_left, List.drop_eq_nil_of_le, List.append_nil]
    rw [List.length_append, List.length_singleton]
  have hn : (l.putc slash).next = (text ++ [slash]).length := by
    rw [List.length_append, ← hnext]
    rfl
  have := Load.strcpy_at (s := s) (text ++ [slash])
    (by rw [hput]; omega) (by rw [hput, hn, List.take_length]) hn
  rwa [List.append_assoc] at this

/-- The second pass writes the text and its NUL, and takes its marks back. -/
theorem load_eq (targetDir : Path) (pfsId : UInt16) (dicts : List Dict) (hi : i ∉ traversed) :
    (load targetDir pfsId dicts traversed i ⟨[], 0⟩).1 = traversed ∧
      (load targetDir pfsId dicts traversed i ⟨[], 0⟩).2.At
        (pathText targetDir pfsId dicts traversed i) := by
  revert hi
  refine up_induction (P := fun traversed i => i ∉ traversed →
    (load targetDir pfsId dicts traversed i ⟨[], 0⟩).1 = traversed ∧
      (load targetDir pfsId dicts traversed i ⟨[], 0⟩).2.At
        (pathText targetDir pfsId dicts traversed i)) dicts ?_ ?_ traversed i
  · intro traversed i hn hi
    rw [load_none hn, pathText_none hn]
    refine ⟨Finset.erase_insert hi, Load.At.element ?_ _⟩
    exact Load.strcpy_at [] (by simp) rfl rfl
  · intro traversed i p hp ih hi
    obtain ⟨hmarks, hat⟩ := ih (nextUp_some hp).2
    rw [load_some hp, pathText_some hp]
    refine ⟨?_, hat.element _⟩
    change (load targetDir pfsId dicts (insert i traversed) p ⟨[], 0⟩).1.erase i = _
    rw [hmarks, Finset.erase_insert hi]

end Up

/-! ## Both passes -/

/-- The bytes of a path with its NUL: the target directory, and for every entry that the path goes
    through a slash and a name. -/
def pathSize (targetDir : Path) (dicts : List Dict) (i : Nat) : Nat :=
  strlen targetDir + ((chain dicts ∅ i).map fun j => (dicts.getD j default).figureLen + 1).sum + 1

theorem length_pathText (targetDir : Path) (pfsId : UInt16) (dicts : List Dict) (i : Nat) :
    (pathText targetDir pfsId dicts ∅ i).length + 1 = pathSize targetDir dicts i := by
  rw [pathText, pathSize, List.length_append, List.length_flatMap, List.map_reverse,
    List.sum_reverse, strlen]
  simp only [length_element]

theorem zero_notMem_pathText (targetDir : Path) (pfsId : UInt16) (dicts : List Dict)
    (traversed : Finset Nat) (i : Nat) :
    (0 : UInt8) ∉ pathText targetDir pfsId dicts traversed i := by
  rw [pathText, List.mem_append, List.mem_flatMap]
  rintro (h | ⟨j, -, h⟩)
  · exact zero_notMem_cString _ h
  · rw [element, List.mem_cons] at h
    rcases h with h | h
    · exact absurd h (by decide)
    · exact zero_notMem_cString _ h

theorem recoverPath_spec (targetDir : Path) (dicts : List Dict) (i : Nat) :
    recoverPath targetDir dicts ∅ i = ⟨int32 (pathSize targetDir dicts i),
      pathText targetDir (dicts.getD i default).pfsId dicts ∅ i ++ [0], ∅⟩ := by
  have hi : i ∉ (∅ : Finset Nat) := Finset.notMem_empty i
  obtain ⟨hmarks, hmem, -⟩ := load_eq targetDir (dicts.getD i default).pfsId dicts hi
  rw [recoverPath, figure_eq (dicts.getD i default).pfsId hi]
  simp only [hmarks, hmem, zero_add, length_pathText]

theorem int32_natCast_iff (n : Nat) : int32 n = n ↔ n < 2 ^ 31 := by
  have hlt := Int.bmod_lt (x := (n : Int)) (m := 2 ^ 32) (by decide)
  constructor
  · intro h
    rw [int32] at h
    rw [h] at hlt
    norm_num at hlt ⊢
    exact hlt
  · intro h
    apply Int.bmod_eq_of_le <;> omega

/-- `recover_path` for any dictionary and any entry, when no entry has a mark: it comes to its end
    with no mark left, what it has written is a text with a NUL behind it, and that is as many
    bytes as the first pass has counted if and only if they are less than 2 GB. -/
theorem recover_path_length_iff (targetDir : Path) (dicts : List Dict) (i : Nat) :
    (recoverPath targetDir dicts ∅ i).traversed = ∅ ∧
      (∃ text, (recoverPath targetDir dicts ∅ i).mem = text ++ [0] ∧ (0 : UInt8) ∉ text) ∧
      ((recoverPath targetDir dicts ∅ i).len = (recoverPath targetDir dicts ∅ i).mem.length ↔
        pathSize targetDir dicts i < 2 ^ 31) := by
  rw [recoverPath_spec]
  refine ⟨rfl, ⟨_, rfl, zero_notMem_pathText _ _ _ _ _⟩, ?_⟩
  simp only [List.length_append, List.length_singleton, length_pathText, int32_natCast_iff]

/-- `n` directories in each other, with names of `len` bytes. -/
def deep (n len : Nat) : List Dict :=
  (List.range n).map fun i => { (default : Dict) with
    objId := UInt64.ofNat (i + 2), name := some (List.replicate len 97), parent := some (i + 1) }

theorem getD_deep {n len i : Nat} (hi : i < n) : (deep n len).getD i default =
    { (default : Dict) with
      objId := UInt64.ofNat (i + 2), name := some (List.replicate len 97), parent := some (i + 1) } := by
  rw [deep, List.getD_eq_getElem?_getD, List.getElem?_map, List.getElem?_range hi]
  rfl

theorem nextUp_deep {n len i : Nat} {traversed : Finset Nat} (hi : i < n)
    (hmarks : i + 1 ∉ traversed) :
    nextUp (deep n len) traversed i = if i + 1 < n then some (i + 1) else none := by
  rw [nextUp, getD_deep hi]
  simp [deep, hmarks]

/-- Every directory is in the path of the first one. -/
theorem chain_deep {n len : Nat} (k i : Nat) (hn : i + k + 1 = n) (traversed : Finset Nat)
    (hmarks : ∀ j ∈ traversed, j < i) : chain (deep n len) traversed i = List.range' i (k + 1) := by
  have hnot : i + 1 ∉ insert i traversed := by
    rw [Finset.mem_insert]
    rintro (h | h)
    · omega
    · have := hmarks _ h
      omega
  have hup := @nextUp_deep n len i (insert i traversed) (by omega) hnot
  induction k generalizing i traversed with
  | zero =>
    rw [if_neg (by omega)] at hup
    exact chain_none hup
  | succ k ih =>
    rw [if_pos (by omega)] at hup
    have hmarks' : ∀ j ∈ insert i traversed, j < i + 1 := by
      intro j hj
      rcases Finset.mem_insert.mp hj with h | h
      · omega
      · have := hmarks j h
        omega
    have hnot' : i + 1 + 1 ∉ insert (i + 1) (insert i traversed) := by
      rw [Finset.mem_insert]
      rintro (h | h)
      · omega
      · have := hmarks' _ h
        omega
    rw [chain_some hup, ih (i + 1) (by omega) _ hmarks' hnot' (nextUp_deep (by omega) hnot')]
    rfl

theorem pathSize_deep {n len : Nat} (hpos : 0 < n) (hlt : n < 2 ^ 63) :
    pathSize [] (deep n len) 0 = n * (len + 1) + 1 := by
  have hlen : ∀ j ∈ List.range' 0 (n - 1 + 1),
      ((deep n len).getD j default).figureLen + 1 = len + 1 := by
    intro j hj
    have hj : j < n := by
      have := List.mem_range'_1.mp hj
      omega
    have hobj : UInt64.ofNat (j + 2) ≠ objidRoot := by
      intro h
      have := congrArg UInt64.toNat h
      rw [UInt64.toNat_ofNat'] at this
      change (j + 2) % 2 ^ 64 = 1 at this
      omega
    have hname : cString (List.replicate len (97 : UInt8)) = List.replicate len 97 :=
      cString_eq_self fun h => absurd (List.eq_of_mem_replicate h) (by decide)
    rw [getD_deep hj, Dict.figureLen, if_neg hobj]
    simp only [strlen, hname, List.length_replicate]
  rw [pathSize, chain_deep (n - 1) 0 (by omega) ∅ (by simp), List.map_congr_left hlen]
  simp only [List.map_const', List.sum_replicate, List.length_range', smul_eq_mul,
    Nat.sub_add_cancel hpos]
  simp [strlen, cString]

theorem recoverPath_deep {n len : Nat} (hpos : 0 < n) (hlt : n < 2 ^ 63) :
    (recoverPath [] (deep n len) ∅ 0).len = int32 (n * (len + 1) + 1 : Nat) ∧
      (recoverPath [] (deep n len) ∅ 0).mem.length = n * (len + 1) + 1 := by
  rw [recoverPath_spec, pathSize_deep hpos hlt]
  simp only [List.length_append, List.length_singleton, length_pathText, pathSize_deep hpos hlt,
    and_self]

/-- With names as long as a directory entry in one buffer can have, some hundred thousand
    directories in each other make the `int` wrap to a negative number of bytes to allocate. -/
theorem recover_path_length_wraps :
    (recoverPath [] (deep 131200 16368) ∅ 0).len = -2147354495 ∧
      (recoverPath [] (deep 131200 16368) ∅ 0).mem.length = 2147612801 ∧
      (recoverPath [] (deep 131200 16368) ∅ 0).result = none := by
  obtain ⟨hlen, hmem⟩ := @recoverPath_deep 131200 16368 (by norm_num) (by norm_num)
  have hwrap : int32 (131200 * (16368 + 1) + 1 : Nat) = -2147354495 := by
    rw [int32]
    decide
  rw [hwrap] at hlen
  norm_num at hmem
  refine ⟨hlen, hmem, ?_⟩
  rw [PathInfo.result, hlen, hmem]
  exact if_neg (by norm_num)

/-! ## The path of the rest of the development -/

theorem component_eq {d : Dict} (h : ∀ name, d.name = some name → (0 : UInt8) ∉ name)
    (pfsId : UInt16) : cString (d.loadName pfsId) = d.component pfsId := by
  rw [Dict.loadName, Dict.component]
  split
  · exact cString_pfsName pfsId
  · cases hname : d.name with
    | none => exact cString_objName d.objId
    | some name => exact cString_eq_self (h name hname)

theorem pathText_eq {targetDir : Path} {dicts : List Dict} (pfsId : UInt16)
    (htarget : (0 : UInt8) ∉ targetDir)
    (hnames : ∀ d ∈ dicts, ∀ name, d.name = some name → (0 : UInt8) ∉ name)
    (traversed : Finset Nat) (i : Nat) (hlt : i < dicts.length) (hi : i ∉ traversed) :
    pathText targetDir pfsId dicts traversed i =
      recoverPathHelper targetDir pfsId dicts traversed (some i) := by
  have helement : ∀ i < dicts.length, element pfsId dicts i =
      slash :: (dicts.getD i default).component pfsId := by
    intro i hlt
    rw [element, component_eq]
    rw [List.getD_eq_getElem _ _ hlt]
    exact hnames _ (List.getElem_mem hlt)
  revert hlt hi
  refine up_induction (P := fun traversed i => i < dicts.length → i ∉ traversed →
    pathText targetDir pfsId dicts traversed i =
      recoverPathHelper targetDir pfsId dicts traversed (some i)) dicts ?_ ?_ traversed i
  · intro traversed i hn hlt hi
    have hstop : recoverPathHelper targetDir pfsId dicts (insert i traversed)
        (dicts.getD i default).parent = targetDir := by
      cases hp : (dicts.getD i default).parent with
      | none => rw [recoverPathHelper]
      | some p =>
        rw [nextUp, hp] at hn
        rw [recoverPathHelper, dif_neg fun h => by simp only [if_pos h, reduceCtorEq] at hn]
    rw [pathText_none hn, recoverPathHelper, dif_pos ⟨hlt, hi⟩, hstop, helement i hlt,
      cString_eq_self htarget]
  · intro traversed i p hp ih hlt hi
    have hparent : (dicts.getD i default).parent = some p := by
      rw [nextUp] at hp
      split at hp
      · cases hp
      · split at hp
        · cases hp
          assumption
        · cases hp
    rw [pathText_some hp, recoverPathHelper, dif_pos ⟨hlt, hi⟩, hparent, helement i hlt,
      ih (nextUp_some hp).1 (nextUp_some hp).2]

/-- Without a NUL in the names, and with less than 2 GB of them, the text is the path as
    `State.path` has it, and there is room for it. -/
theorem recoverPath_eq (env : Env) (s : State) {i : Nat} (hi : i < s.dicts.length)
    (htarget : (0 : UInt8) ∉ env.targetDir)
    (hnames : ∀ d ∈ s.dicts, ∀ name, d.name = some name → (0 : UInt8) ∉ name)
    (hsize : pathSize env.targetDir s.dicts i < 2 ^ 31) :
    (recoverPath env.targetDir s.dicts ∅ i).result = some (s.path env i ++ [0]) := by
  rw [recoverPath_spec, PathInfo.result, (int32_natCast_iff _).mpr hsize]
  dsimp only
  rw [List.length_append, List.length_singleton, length_pathText, if_pos le_rfl,
    pathText_eq _ htarget hnames _ _ hi (Finset.notMem_empty i)]
  rfl

/-- A file in two directories that are the parents of each other. -/
def cycle : List Dict :=
  [{ (default : Dict) with objId := 2, name := some [97], parent := some 1 },
    { (default : Dict) with objId := 3, name := some [98], parent := some 2 },
    { (default : Dict) with objId := 4, parent := some 1 }]

theorem recoverPath_eq_cycle : ∃ s : State, s.dicts = cycle ∧
    (recoverPath [84] s.dicts ∅ 0).result = some (s.path (imageOf []) 0 ++ [0]) ∧
    s.path (imageOf []) 0 = [84] ++ slash :: objName 4 ++ slash :: [98] ++ slash :: [97] := by
  have hnames : ∀ d ∈ cycle, ∀ name, d.name = some name → (0 : UInt8) ∉ name := by
    simp [cycle, default]
  refine ⟨⟨cycle, none, ⟨fun _ => none, fun _ => [], [], 0, by simp⟩, []⟩, rfl,
    recoverPath_eq (imageOf []) _ (by decide) (by decide) hnames ?_, ?_⟩
  · decide +kernel
  · decide +kernel

end Lh1.Hammer.Recover
