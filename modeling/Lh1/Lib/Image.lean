/-
  Images: byte stores with an address for every byte.

  `read` takes a range of bytes out, `word` a little-endian word, `write` puts bytes in. `read_write`
  lemmas say what a range looks like after a write: the bytes written, or what was there before when
  the two ranges do not meet. `view` is the image as seen from an address on. `writes` is a list of
  writes; when no two of their extents meet, each one is read back.
-/
import Lh1.Lib.Bytes

namespace Lh1.Lib

abbrev Image := Nat → UInt8

namespace Image

variable {m n : Image} {o p len w : Nat} {bs : List UInt8}

/-- The bytes `[o, o + len)`. -/
def read (m : Image) (o len : Nat) : List UInt8 := (List.range len).map fun i => m (o + i)

/-- The word of `w` bytes at `o`. -/
def word (m : Image) (o w : Nat) : Nat := fromLE (m.read o w)

def view (m : Image) (o : Nat) : Image := fun i => m (o + i)

/-- `m` with `bs` from `o` on. -/
def write (m : Image) (o : Nat) (bs : List UInt8) : Image :=
  fun i => if i < o then m i else bs.getD (i - o) (m i)

@[simp] theorem length_read : (m.read o len).length = len := by
  rw [read, List.length_map, List.length_range]

theorem read_congr (h : ∀ i, o ≤ i → i < o + len → m i = n i) : m.read o len = n.read o len := by
  rw [read, read]
  apply List.map_congr_left
  intro i hi
  exact h (o + i) (Nat.le_add_right o i) (Nat.add_lt_add_left (List.mem_range.mp hi) o)

theorem word_congr (h : ∀ i, o ≤ i → i < o + w → m i = n i) : m.word o w = n.word o w := by
  rw [word, word, read_congr h]

/-- Away from what is written nothing changes. -/
theorem write_apply_of_disjoint {i : Nat} (h : i < o ∨ o + bs.length ≤ i) :
    m.write o bs i = m i := by
  rw [write]
  split
  · rfl
  · rw [List.getD_eq_getElem?_getD, List.getElem?_eq_none (by omega), Option.getD_none]

theorem write_apply_of_mem {i : Nat} (h : i < bs.length) : m.write o bs (o + i) = bs[i] := by
  rw [write, if_neg (by omega), Nat.add_sub_cancel_left, List.getD_eq_getElem?_getD,
    List.getElem?_eq_getElem h, Option.getD_some]

theorem read_write_of_disjoint (h : p + len ≤ o ∨ o + bs.length ≤ p) :
    (m.write o bs).read p len = m.read p len :=
  read_congr fun i _ _ => write_apply_of_disjoint (by omega)

theorem word_write_of_disjoint (h : p + w ≤ o ∨ o + bs.length ≤ p) :
    (m.write o bs).word p w = m.word p w := by
  rw [word, word, read_write_of_disjoint h]

theorem read_write_self : (m.write o bs).read o bs.length = bs := by
  apply List.ext_getElem length_read
  intro i h1 h2
  simp only [read, List.getElem_map, List.getElem_range]
  exact write_apply_of_mem h2

theorem read_write_of_length (h : bs.length = len) : (m.write o bs).read o len = bs :=
  h ▸ read_write_self

theorem word_write_self (h : p < 256 ^ w) : (m.write o (toLE w p)).word o w = p := by
  have hr : (m.write o (toLE w p)).read o w = toLE w p := by
    conv => lhs; arg 3; rw [← length_toLE w p]
    exact read_write_self
  rw [word, hr, fromLE_toLE w p h]

theorem eq_of_read_eq {i : Nat} (h : m.read o len = n.read p len) (hi : i < len) :
    m (o + i) = n (p + i) := by
  have hget := congrArg (fun l : List UInt8 => l[i]?) h
  simpa [read, hi] using hget

theorem read_add (a b : Nat) : m.read o (a + b) = m.read o a ++ m.read (o + a) b := by
  rw [read, read, read, List.range_add, List.map_append, List.map_map]
  congr 1
  apply List.map_congr_left
  intro i _
  rw [Function.comp_apply, Nat.add_assoc]

theorem slice_read {k : Nat} (h : k + len ≤ w) :
    slice (m.read o w) k (k + len) = m.read (o + k) len := by
  obtain ⟨r, rfl⟩ : ∃ r, w = k + len + r := ⟨w - (k + len), by omega⟩
  rw [read_add, read_add, slice, List.append_assoc, List.drop_left' length_read,
    Nat.add_sub_cancel_left, List.take_left' length_read]

/-! ## Lists of writes -/

/-- The writes in their order. -/
def writes (m : Image) (ws : List (Nat × List UInt8)) : Image :=
  ws.foldl (fun m w => m.write w.1 w.2) m

/-- Where a write goes. -/
def extent (w : Nat × List UInt8) : Nat × Nat := (w.1, w.2.length)

/-- Two extents do not meet. -/
def Apart (a b : Nat × Nat) : Prop := a.1 + a.2 ≤ b.1 ∨ b.1 + b.2 ≤ a.1

instance (a b : Nat × Nat) : Decidable (Apart a b) :=
  inferInstanceAs (Decidable (_ ∨ _))

variable {ws : List (Nat × List UInt8)}

theorem writes_append (vs : List (Nat × List UInt8)) :
    m.writes (ws ++ vs) = (m.writes ws).writes vs := by
  rw [writes, writes, writes, List.foldl_append]

theorem read_writes_concat (ws : List (Nat × List UInt8)) (bs : List UInt8) :
    (m.writes (ws ++ [(o, bs)])).read o bs.length = bs := by
  rw [writes_append]
  exact read_write_self

theorem writes_apply_of_disjoint {i : Nat} (h : ∀ w ∈ ws, i < w.1 ∨ w.1 + w.2.length ≤ i) :
    m.writes ws i = m i := by
  induction ws generalizing m with
  | nil => rfl
  | cons w ws ih =>
    have hw := h w List.mem_cons_self
    have hws := fun v hv => h v (List.mem_cons_of_mem _ hv)
    exact (ih hws).trans (write_apply_of_disjoint hw)

theorem read_writes_of_disjoint (h : ∀ w ∈ ws, Apart (p, len) (extent w)) :
    (m.writes ws).read p len = m.read p len :=
  read_congr fun i hi hi' => writes_apply_of_disjoint fun w hw => by
    rcases h w hw with hw | hw <;> simp only [extent] at hw <;> omega

theorem read_writes_of_mem (hd : (ws.map extent).Pairwise Apart) (h : (o, bs) ∈ ws) :
    (m.writes ws).read o bs.length = bs := by
  induction ws generalizing m with
  | nil => cases h
  | cons w ws ih =>
    rw [List.map_cons, List.pairwise_cons] at hd
    rcases List.mem_cons.mp h with rfl | h
    · exact (read_writes_of_disjoint fun v hv => hd.1 _ (List.mem_map_of_mem hv)).trans
        read_write_self
    · exact ih hd.2 h

theorem word_writes_of_mem (hd : (ws.map extent).Pairwise Apart) (h : (o, toLE w p) ∈ ws)
    (hp : p < 256 ^ w) : (m.writes ws).word o w = p := by
  have hread := read_writes_of_mem (m := m) hd h
  rw [length_toLE] at hread
  rw [word, hread, fromLE_toLE w p hp]

theorem word_writes_of_disjoint (h : ∀ v ∈ ws, Apart (p, w) (extent v)) :
    (m.writes ws).word p w = m.word p w := by
  rw [word, word, read_writes_of_disjoint h]

end Image

end Lh1.Lib
