/-
  The B-Tree walkers of `hammer show` (cmd_show.c) and `hammer checkmap` (cmd_blockmap.c).

  Both start at the root and follow the subtree offsets of internal elements. `print_btree_node`
  prints a node with marks for what is wrong with it, its elements with flags for what is wrong
  with them, and goes on to the subtrees; `check_btree_node` only looks at the CRC.

  What `get_buffer_data` returns for an offset is given (`Image`): NULL or a node, with the
  elements in memory behind it. Offset 0 is in zone 0, which has no translation. What is printed is
  a list of lines; the walkers have fuel, and run out of it where the source does not end.
  Of the options, the indentation and what is done about records are left out, and with the latter
  the assertions of `print_record` and the NULL pointer that `get_inode_crc` may use; also the
  assertions of `collect_blockmap` under `DebugOpt`.
-/
import Lh1.Lib.Fallible
import Lh1.Lib.Order

namespace Lh1.Hammer.Show

open Lib

/-! ## Nodes -/

/-- `struct hammer_base_elm`. -/
structure BaseElm where
  objId : Int64
  key : Int64
  createTid : UInt64
  deleteTid : UInt64
  recType : UInt16
  btype : UInt8
  localization : UInt32
  deriving DecidableEq

/-- `union hammer_btree_elm`. The offset is `subtree_offset` or `data_offset`. -/
structure Elm where
  base : BaseElm
  mirrorTid : UInt64
  offset : UInt64
  dataLen : Int
  deriving DecidableEq

/-- `struct hammer_node_ondisk`. `crcOk` is the result of `hammer_crc_test_btree`, and `elms` are
    the elements and what is in memory behind them. -/
structure Node where
  crcOk : Bool
  parent : UInt64
  count : Int
  type : UInt8
  mirrorTid : UInt64
  elms : Nat → Elm

structure Image where
  read : UInt64 → Option Node
  zone0 : read 0 = none

def typeInternal : UInt8 := 73
def typeLeaf : UInt8 := 76
def typeRecord : UInt8 := 82
def typeNone : UInt8 := 0

/-- HAMMER_MAX_TID. -/
def maxTid : UInt64 := 0xFFFFFFFFFFFFFFFF

/-- `hammer_node_max_elements`. -/
def maxElements (type : UInt8) : Int :=
  if type = typeLeaf then 63 else if type = typeInternal then 62 else -1

def Node.slots (node : Node) : List Nat := List.range node.count.toNat

inductive Fault where
  | null        -- the use of a NULL pointer
  | assertion
  | fuel
  deriving DecidableEq, Repr

/-! ## Checking a node and its elements -/

section

variable (img : Image)

/-- `test_node_count`: the character for `badm`, or nothing. -/
def testNodeCount (node : Node) : Except Fault (Option Char) :=
  if maxElements node.type = -1 then .ok (some 'U')
  else if maxElements node.type < node.count then .ok (some 'C')
  else if node.count = 0 then
    match img.read node.parent with
    | none => .error .null
    | some parentNode => if parentNode.count ≠ 1 then .ok (some 'C') else .ok none
  else .ok none

/-- `badc` and `badm` of a node that could be read. -/
def nodeMarks (mirrorTid : UInt64) (node : Node) : Except Fault (Char × Char) := do
  let badc := if node.crcOk = true then ' ' else 'B'
  let marks := if mirrorTid < node.mirrorTid then ('B', 'M') else (badc, ' ')
  match ← testNodeCount img node with
  | none => .ok marks
  | some badm => .ok ('B', badm)

/-- `hammer_btree_cmp`. -/
def hammerBtreeCmp (key1 key2 : BaseElm) : Int :=
  if key1.localization < key2.localization then -5
  else if key1.localization > key2.localization then 5
  else if key1.objId < key2.objId then -4
  else if key1.objId > key2.objId then 4
  else if key1.recType < key2.recType then -3
  else if key1.recType > key2.recType then 3
  else if key1.key < key2.key then -2
  else if key1.key > key2.key then 2
  else if key1.createTid = 0 then
    if key2.createTid = 0 then 0 else 1
  else if key2.createTid = 0 then -1
  else if key1.createTid < key2.createTid then -1
  else if key1.createTid > key2.createTid then 1
  else 0

def flagTooFarLeft : Nat := 0x0001
def flagTooFarRight : Nat := 0x0002
def flagBadType : Nat := 0x0004
def flagBadChildParent : Nat := 0x0008
def flagBadMirrorTid : Nat := 0x0010

/-- `test_lr`, with `lbe` and the element behind it. -/
def testLr (elm : Elm) : Option (Elm × Elm) → Nat
  | none => 0
  | some (lbe, rbe) =>
    if hammerBtreeCmp elm.base lbe.base < 0 then flagTooFarLeft
    else if 0 ≤ hammerBtreeCmp elm.base rbe.base then flagTooFarRight
    else 0

/-- `test_rbn_lr`. -/
def testRbnLr (rbn : Elm) : Option (Elm × Elm) → Nat
  | none => 0
  | some (lbe, rbe) =>
    if hammerBtreeCmp rbn.base lbe.base < 0 then flagTooFarLeft
    else if 0 < hammerBtreeCmp rbn.base rbe.base then flagTooFarRight
    else 0

/-- The check of the parent pointer in `get_elm_flags`. -/
def testChild (nodeOffset : UInt64) (elm : Elm) : Nat :=
  if elm.offset = 0 then flagBadChildParent
  else
    match img.read elm.offset with
    | none => flagBadChildParent
    | some subnode => if subnode.parent ≠ nodeOffset then flagBadChildParent else 0

/-- The checks of a leaf element in `get_elm_flags`. -/
def testLeafElm (node : Node) (elm : Elm) : Nat :=
  (if elm.offset = 0 then flagBadChildParent else 0) |||
  (if elm.dataLen = 0 then flagBadChildParent else 0) |||
  (if node.mirrorTid = 0 ∧ ¬ (node.parent = 0 ∧ node.count = 2) then flagBadMirrorTid else 0) |||
  (if elm.base.createTid ≠ 0 ∧ node.mirrorTid ≠ 0 ∧ node.mirrorTid < elm.base.createTid then
    flagBadMirrorTid else 0) |||
  (if elm.base.deleteTid ≠ 0 ∧ node.mirrorTid ≠ 0 ∧ node.mirrorTid < elm.base.deleteTid then
    flagBadMirrorTid else 0)

/-- `get_elm_flags`. -/
def getElmFlags (node : Node) (nodeOffset : UInt64) (i : Nat) (lbe : Option (Elm × Elm)) : Nat :=
  let elm := node.elms i
  if node.type = typeInternal then
    (if node.mirrorTid < elm.mirrorTid then flagBadMirrorTid else 0) |||
    (if i = node.count then
      (if elm.offset ≠ 0 then flagBadChildParent else 0) |||
      (if elm.base.btype = typeNone then testRbnLr elm lbe else flagBadType)
    else
      testChild img nodeOffset elm |||
      (if elm.base.btype = typeInternal ∨ elm.base.btype = typeLeaf then testLr elm lbe
        else flagBadType))
  else if node.type = typeLeaf then
    testLeafElm node elm |||
    (if elm.base.btype = typeRecord then testLr elm lbe else flagBadType)
  else flagBadType

end

/-! ## Searching -/

/-- `opt.base` and `opt.limit`. -/
structure Search where
  base : BaseElm
  limit : Nat

/-- `test_btree_search`. -/
def testBtreeSearch (search : Search) (elm : Elm) : Int :=
  let base1 := elm.base
  let base2 := search.base
  if base1.localization < base2.localization then -5
  else if base1.localization > base2.localization then 5
  else if search.limit = 1 then 0
  else if base1.objId < base2.objId then -4
  else if base1.objId > base2.objId then 4
  else if search.limit = 2 then 0
  else if base1.recType < base2.recType then -3
  else if base1.recType > base2.recType then 3
  else if search.limit = 3 then 0
  else if base1.key < base2.key then -2
  else if base1.key > base2.key then 2
  else if search.limit = 4 then 0
  else if base1.createTid = 0 then
    if base2.createTid = 0 then 0 else 1
  else if base2.createTid = 0 then -1
  else if base1.createTid < base2.createTid then -1
  else if base1.createTid > base2.createTid then 1
  else 0

/-- `test_btree_match`. -/
def testBtreeMatch (search : Search) (elm : Elm) : Bool := testBtreeSearch search elm = 0

/-- `test_btree_out_of_range`, with the element and the one behind it. -/
def testBtreeOutOfRange (search : Search) (elm next : Elm) : Bool :=
  if 0 < testBtreeSearch search elm then true
  else if 5 ≤ search.limit then testBtreeSearch search next ≤ 0
  else testBtreeSearch search next < 0

/-! ## Printing -/

/-- What is printed: the line of a node with its marks, the elements with their slots, flags and
    whether the star is printed, and the right boundary. -/
inductive Line where
  | node (offset : UInt64) (badc badm : Char)
  | elm (offset : UInt64) (i : Nat) (flags : Nat) (ext : Bool)
  | rbn (offset : UInt64) (i : Nat) (flags : Nat)
  deriving DecidableEq

/-- `num_bad_node` counts these. -/
def Line.badNode : Line → Bool
  | .node _ badc badm => badm ≠ ' ' ∨ badc ≠ ' '
  | _ => false

/-- `num_bad_elm` counts these. -/
def Line.badElm : Line → Bool
  | .elm _ _ flags _ => flags ≠ 0
  | .rbn _ _ flags => flags ≠ 0
  | _ => false

/-- `opt.filter`, which is changed, and what has been printed. -/
structure Out where
  filter : Int
  lines : List Line

def Out.put (out : Out) (lines : List Line) : Out := { out with lines := out.lines ++ lines }

/-- The source has an `int`; zero is to mean that no node was marked. -/
def Out.numBadNode (out : Out) : Nat := out.lines.countP Line.badNode

def Out.numBadElm (out : Out) : Nat := out.lines.countP Line.badElm

section

variable (img : Image) (search : Search)

/-- The star behind an element. -/
def elmExt (node : Node) (i : Nat) : Bool :=
  if search.limit = 0 then false
  else if node.type = typeInternal then
    !testBtreeOutOfRange search (node.elms i) (node.elms (i + 1))
  else if node.type = typeLeaf then testBtreeMatch search (node.elms i)
  else false

/-- The loop of `print_btree_node` over the elements. -/
def elmLines (node : Node) (offset : UInt64) (lbe : Option (Elm × Elm)) : List Line :=
  node.slots.map fun i =>
    .elm offset i (getElmFlags img node offset i lbe) (elmExt search node i)

/-- "Cause show to do normal iteration after seeking", after a subtree was printed. -/
def Out.seeked (out : Out) : Out :=
  if search.limit ≠ 0 ∧ out.filter = -1 then { out with filter := 0 } else out

/-- The loop of `print_btree_node` over the subtrees, which are printed by `visit`. -/
def printSubtrees (visit : UInt64 → UInt64 → Option (Elm × Elm) → Out → Except Fault Out)
    (node : Node) : List Nat → Out → Except Fault Out
  | [], out => .ok out
  | i :: is, out =>
    if search.limit ≠ 0 ∧ out.filter ≠ 0 ∧
        testBtreeOutOfRange search (node.elms i) (node.elms (i + 1)) = true then
      printSubtrees visit node is out
    else if (node.elms i).offset ≠ 0 then do
      let out ← visit (node.elms i).offset (node.elms i).mirrorTid
        (some (node.elms i, node.elms (i + 1))) out
      printSubtrees visit node is (out.seeked search)
    else printSubtrees visit node is out

/-- `print_btree_node`. A node that could not be read is used nevertheless. -/
def printBtreeNode : Nat → UInt64 → UInt64 → Option (Elm × Elm) → Out → Except Fault Out
  | 0, _, _, _, _ => .error .fuel
  | fuel + 1, offset, mirrorTid, lbe, out =>
    match img.read offset with
    | none => .error .null
    | some node => do
      let marks ← nodeMarks img mirrorTid node
      let out := out.put (.node offset marks.1 marks.2 :: elmLines img search node offset lbe)
      if node.type = typeInternal then do
        Lib.check (0 ≤ node.count) .assertion
        let i := node.count.toNat
        let out := out.put [.rbn offset i (getElmFlags img node offset i lbe)]
        printSubtrees search (printBtreeNode fuel) node node.slots out
      else .ok out

/-- `print_btree`. -/
def printBtree (fuel : Nat) (root : UInt64) (filter : Int) : Except Fault Out :=
  printBtreeNode img search fuel root maxTid none ⟨filter, []⟩

end

/-! ## Checkmap -/

/-- What `check_btree_node` prints, collects and looks at. -/
inductive CheckLine where
  | bad (offset : UInt64) (badc badm : Char)
  | root (offset : UInt64)
  | slot (offset : UInt64) (i : Nat)
  | internal (offset : UInt64) (i : Nat)
  | leaf (offset : UInt64) (i : Nat)
  deriving DecidableEq

section

variable (img : Image) (debugOpt : Bool)

/-- The loop of `check_btree_node`, with `visit` for the subtrees. -/
def checkElms (visit : UInt64 → List CheckLine → Except Fault (List CheckLine)) (node : Node)
    (offset : UInt64) : List Nat → List CheckLine → Except Fault (List CheckLine)
  | [], log => .ok log
  | i :: is, log =>
    let log := log ++ [.slot offset i]
    if node.type = typeInternal then
      if (node.elms i).offset ≠ 0 then do
        let log ← visit (node.elms i).offset (log ++ [.internal offset i])
        checkElms visit node offset is log
      else checkElms visit node offset is log
    else if node.type = typeLeaf then
      checkElms visit node offset is
        (if (node.elms i).offset ≠ 0 then log ++ [.leaf offset i] else log)
    else do
      Lib.check (debugOpt = false) .assertion
      checkElms visit node offset is log

/-- `check_btree_node`. -/
def checkBtreeNode : Nat → UInt64 → Nat → List CheckLine → Except Fault (List CheckLine)
  | 0, _, _, _ => .error .fuel
  | fuel + 1, offset, depth, log =>
    let log := if depth = 0 then log ++ [.root offset] else log
    match img.read offset with
    | none => .ok (log ++ [.bad offset 'B' 'I'])
    | some node =>
      let log := if node.crcOk = true then log else log ++ [.bad offset 'B' ' ']
      checkElms debugOpt (fun offset => checkBtreeNode fuel offset (depth + 1)) node offset
        node.slots log

end

/-! ## The order of keys -/

theorem lt_coe_uint32 (a b : UInt32) :
    a < b ↔ ((a.toNat : Int) : WithTop Int) < ((b.toNat : Int) : WithTop Int) := by
  rw [WithTop.coe_lt_coe, Int.ofNat_lt, UInt32.lt_iff_toNat_lt]

theorem lt_coe_uint16 (a b : UInt16) :
    a < b ↔ ((a.toNat : Int) : WithTop Int) < ((b.toNat : Int) : WithTop Int) := by
  rw [WithTop.coe_lt_coe, Int.ofNat_lt, UInt16.lt_iff_toNat_lt]

theorem lt_coe_int64 (a b : Int64) : a < b ↔ (a.toInt : WithTop Int) < (b.toInt : WithTop Int) := by
  rw [WithTop.coe_lt_coe, Int64.lt_iff_toInt_lt]

/-- A transaction id as it sorts. -/
def tidField (t : UInt64) : WithTop Int := if t = 0 then ⊤ else ((t.toNat : Int) : WithTop Int)

theorem lt_tidField (t1 t2 : UInt64) :
    tidField t1 < tidField t2 ↔ t1 ≠ 0 ∧ (t2 = 0 ∨ t1 < t2) := by
  rw [tidField, tidField]
  by_cases h1 : t1 = 0 <;> by_cases h2 : t2 = 0
  · simp [h1, h2]
  · simp [h1, h2]
  · simp [h1, h2]
  · rw [if_neg h1, if_neg h2, WithTop.coe_lt_coe, Int.ofNat_lt, ← UInt64.lt_iff_toNat_lt]
    simp [h1, h2]

theorem compares_tid (t1 t2 : UInt64) : Compares
    (if t1 = 0 then if t2 = 0 then 0 else 1
      else if t2 = 0 then -1 else if t1 < t2 then -1 else if t1 > t2 then 1 else 0 : Int)
    [tidField t1] [tidField t2] := by
  have h := (compares_nil (α := WithTop Int)).field (p := t1 ≠ 0 ∧ (t2 = 0 ∨ t1 < t2))
    (q := t2 ≠ 0 ∧ (t1 = 0 ∨ t2 < t1)) Int.one_pos (lt_tidField t1 t2).symm (lt_tidField t2 t1).symm
  convert h using 1
  by_cases h1 : t1 = 0 <;> by_cases h2 : t2 = 0 <;> simp [h1, h2]

/-- The fields of a key in the order they are compared in. -/
def BaseElm.fields (b : BaseElm) : List (WithTop Int) :=
  [((b.localization.toNat : Int) : WithTop Int), (b.objId.toInt : WithTop Int),
    ((b.recType.toNat : Int) : WithTop Int), (b.key.toInt : WithTop Int), tidField b.createTid]

section

variable {r : Int} {xs ys : List (WithTop Int)}

theorem compares_key (k1 k2 : Int64) (h : Compares r xs ys) :
    Compares (if k1 < k2 then -2 else if k1 > k2 then 2 else r) ((k1.toInt : WithTop Int) :: xs)
      ((k2.toInt : WithTop Int) :: ys) :=
  h.field (by decide) (lt_coe_int64 k1 k2) (lt_coe_int64 k2 k1)

theorem compares_recType (t1 t2 : UInt16) (h : Compares r xs ys) :
    Compares (if t1 < t2 then -3 else if t1 > t2 then 3 else r)
      (((t1.toNat : Int) : WithTop Int) :: xs) (((t2.toNat : Int) : WithTop Int) :: ys) :=
  h.field (by decide) (lt_coe_uint16 t1 t2) (lt_coe_uint16 t2 t1)

theorem compares_objId (o1 o2 : Int64) (h : Compares r xs ys) :
    Compares (if o1 < o2 then -4 else if o1 > o2 then 4 else r) ((o1.toInt : WithTop Int) :: xs)
      ((o2.toInt : WithTop Int) :: ys) :=
  h.field (by decide) (lt_coe_int64 o1 o2) (lt_coe_int64 o2 o1)

theorem compares_localization (l1 l2 : UInt32) (h : Compares r xs ys) :
    Compares (if l1 < l2 then -5 else if l1 > l2 then 5 else r)
      (((l1.toNat : Int) : WithTop Int) :: xs) (((l2.toNat : Int) : WithTop Int) :: ys) :=
  h.field (by decide) (lt_coe_uint32 l1 l2) (lt_coe_uint32 l2 l1)

end

theorem compares_hammerBtreeCmp (key1 key2 : BaseElm) :
    Compares (hammerBtreeCmp key1 key2) key1.fields key2.fields := by
  unfold hammerBtreeCmp BaseElm.fields
  apply compares_localization
  apply compares_objId
  apply compares_recType
  apply compares_key
  exact compares_tid key1.createTid key2.createTid

/-- `test_btree_search` compares as many fields as were given. -/
theorem compares_testBtreeSearch {search : Search} (hlimit : 1 ≤ search.limit) (elm : Elm) :
    Compares (testBtreeSearch search elm) (elm.base.fields.take search.limit)
      (search.base.fields.take search.limit) := by
  obtain ⟨base, limit⟩ := search
  unfold testBtreeSearch BaseElm.fields
  match limit with
  | 1 =>
    rw [List.take_succ_cons, List.take_succ_cons, List.take_zero, List.take_zero]
    apply compares_localization
    rw [if_pos rfl]
    exact compares_nil
  | 2 =>
    simp only [List.take_succ_cons, List.take_zero]
    apply compares_localization
    rw [if_neg (by decide)]
    apply compares_objId
    rw [if_pos trivial]
    exact compares_nil
  | 3 =>
    simp only [List.take_succ_cons, List.take_zero]
    apply compares_localization
    rw [if_neg (by decide)]
    apply compares_objId
    rw [if_neg (by decide)]
    apply compares_recType
    rw [if_pos trivial]
    exact compares_nil
  | 4 =>
    simp only [List.take_succ_cons, List.take_zero]
    apply compares_localization
    rw [if_neg (by decide)]
    apply compares_objId
    rw [if_neg (by decide)]
    apply compares_recType
    rw [if_neg (by decide)]
    apply compares_key
    rw [if_pos trivial]
    exact compares_nil
  | n + 5 =>
    rw [List.take_of_length_le (by simp), List.take_of_length_le (by simp)]
    apply compares_localization
    rw [if_neg (by simp)]
    apply compares_objId
    rw [if_neg (by simp)]
    apply compares_recType
    rw [if_neg (by simp)]
    apply compares_key
    rw [if_neg (by simp)]
    exact compares_tid elm.base.createTid base.createTid

end Lh1.Hammer.Show
