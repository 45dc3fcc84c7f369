/-
  Trapdoor permutations on blocks of bytes.

  A `KeyPair` is a permutation of the numbers below a modulus together with its inverse; one of
  the two is public. `blockOp` applies an operation to a block of bytes, read as a big-endian
  number; it refuses a block that is not below the modulus. The modulus has its top bit set, so
  a block whose first byte is small is never refused (`fromBE_lt_of_head`).

  * `sealed_open`: a block that went through the private operation of one pair and the public
    operation of another comes back through the private operation of the second and the public
    operation of the first.
-/
import Lh1.Lib.Bytes

namespace Lh1.Lib

/-! ## Big-endian numbers -/

def toBE (w n : Nat) : List UInt8 := (toLE w n).reverse

def fromBE (bs : List UInt8) : Nat := fromLE bs.reverse

@[simp] theorem length_toBE (w n : Nat) : (toBE w n).length = w := by
  rw [toBE, List.length_reverse, length_toLE]

theorem fromBE_toBE {w n : Nat} (h : n < 256 ^ w) : fromBE (toBE w n) = n := by
  rw [fromBE, toBE, List.reverse_reverse, fromLE_toLE w n h]

theorem toBE_fromBE (bs : List UInt8) : toBE bs.length (fromBE bs) = bs := by
  have h := toLE_fromLE bs.reverse
  rw [List.length_reverse] at h
  rw [toBE, fromBE, h, List.reverse_reverse]

theorem fromLE_append (xs ys : List UInt8) :
    fromLE (xs ++ ys) = fromLE xs + 256 ^ xs.length * fromLE ys := by
  induction xs with
  | nil => simp [fromLE]
  | cons x xs ih =>
    rw [List.cons_append, fromLE, fromLE, ih, List.length_cons, Nat.pow_succ]
    ring

/-- The first byte bounds the number. -/
theorem fromBE_cons_lt (b : UInt8) (bs : List UInt8) :
    fromBE (b :: bs) < 256 ^ bs.length * (b.toNat + 1) := by
  have h := fromLE_lt bs.reverse
  rw [List.length_reverse] at h
  rw [fromBE, List.reverse_cons, fromLE_append, List.length_reverse, Nat.mul_add, Nat.mul_one,
    fromLE, fromLE, Nat.mul_zero, Nat.add_zero]
  omega

/-! ## Blocks of one size -/

theorem length_flatten_blocks {n : Nat} {cs : List (List UInt8)} (h : ∀ c ∈ cs, c.length = n) :
    cs.flatten.length = n * cs.length := by
  rw [List.length_flatten, List.map_congr_left h, List.map_const', List.sum_replicate,
    smul_eq_mul, Nat.mul_comm]

theorem slice_flatten_blocks {n j : Nat} {cs : List (List UInt8)} (h : ∀ c ∈ cs, c.length = n)
    (hj : j < cs.length) : slice cs.flatten (n * j) (n * (j + 1)) = cs[j] := by
  induction cs generalizing j with
  | nil => exact absurd hj (Nat.not_lt_zero j)
  | cons c cs ih =>
    have hc := h c List.mem_cons_self
    cases j with
    | zero =>
      rw [List.flatten_cons, slice, Nat.mul_zero, List.drop_zero, Nat.zero_add, Nat.mul_one,
        Nat.sub_zero, List.take_left' hc, List.getElem_cons_zero]
    | succ j =>
      have hj' : j < cs.length := Nat.lt_of_succ_lt_succ hj
      rw [List.getElem_cons_succ, ← ih (fun d hd => h d (List.mem_cons_of_mem _ hd)) hj',
        List.flatten_cons, slice, slice, Nat.mul_succ n j, Nat.add_comm (n * j) n,
        ← List.drop_drop, List.drop_left' hc]
      congr 1
      rw [Nat.mul_succ, Nat.mul_succ]
      omega

/-! ## Key pairs -/

/-- What everyone knows of a key pair: the public operation. -/
structure PublicKey where
  size : Nat
  modulus : Nat
  op : Nat → Nat

/-- The public and the private operation: inverse permutations of the numbers below a modulus of
    `size` bytes with its top bit set. -/
structure KeyPair where
  size : Nat
  modulus : Nat
  pub : Nat → Nat
  priv : Nat → Nat
  top_bit : 128 * 256 ^ (size - 1) ≤ modulus
  fits : modulus < 256 ^ size
  pub_lt : ∀ x < modulus, pub x < modulus
  priv_lt : ∀ x < modulus, priv x < modulus
  pub_priv : ∀ x < modulus, pub (priv x) = x
  priv_pub : ∀ x < modulus, priv (pub x) = x

/-- Apply `f` to a block of `size` bytes below the modulus. -/
def blockOp (size modulus : Nat) (f : Nat → Nat) (bs : List UInt8) : Option (List UInt8) :=
  if bs.length = size ∧ fromBE bs < modulus then some (toBE size (f (fromBE bs))) else none

def PublicKey.publicOp (k : PublicKey) : List UInt8 → Option (List UInt8) :=
  blockOp k.size k.modulus k.op

namespace KeyPair

variable {k l : KeyPair} {bs cs : List UInt8}

def publicKey (k : KeyPair) : PublicKey := ⟨k.size, k.modulus, k.pub⟩

def privateOp (k : KeyPair) : List UInt8 → Option (List UInt8) := blockOp k.size k.modulus k.priv

/-- A block whose first byte has its two top bits clear is below the modulus. -/
theorem fromBE_lt_of_head (hl : bs.length = k.size) (hsize : 0 < k.size)
    (hhead : bs.headD 0 &&& 0xC0 = 0) : fromBE bs < k.modulus := by
  have hbyte : ∀ x : Fin 256, UInt8.ofNat x &&& 0xC0 = 0 → x.val < 64 := by
    decide +kernel
  obtain ⟨b, bs, rfl⟩ : ∃ b bs', bs = b :: bs' := List.exists_cons_of_length_pos (hl ▸ hsize)
  rw [List.length_cons] at hl
  have hb := hbyte ⟨b.toNat, b.toNat_lt⟩ (by rwa [UInt8.ofNat_toNat])
  calc fromBE (b :: bs) < 256 ^ bs.length * (b.toNat + 1) := fromBE_cons_lt b bs
    _ ≤ 256 ^ bs.length * 128 := Nat.mul_le_mul_left _ (by simp only at hb; omega)
    _ = 128 * 256 ^ (k.size - 1) := by rw [Nat.mul_comm, ← hl, Nat.add_sub_cancel]
    _ ≤ k.modulus := k.top_bit

theorem blockOp_undo {f g : Nat → Nat} (hf : ∀ x < k.modulus, f x < k.modulus)
    (hgf : ∀ x < k.modulus, g (f x) = x) (h : blockOp k.size k.modulus f bs = some cs) :
    blockOp k.size k.modulus g cs = some bs := by
  rw [blockOp] at h
  split at h
  next hbs =>
    cases h
    have hlt := hf _ hbs.2
    have hback : fromBE (toBE k.size (f (fromBE bs))) = f (fromBE bs) :=
      fromBE_toBE (hlt.trans k.fits)
    rw [blockOp, if_pos ⟨length_toBE .., by rwa [hback]⟩, hback, hgf _ hbs.2, ← hbs.1,
      toBE_fromBE]
  next => cases h

/-- What a private operation makes, the public one undoes. -/
theorem publicOp_privateOp (h : k.privateOp bs = some cs) : k.publicKey.publicOp cs = some bs :=
  blockOp_undo k.priv_lt k.pub_priv h

theorem privateOp_publicOp (h : k.publicKey.publicOp bs = some cs) : k.privateOp cs = some bs :=
  blockOp_undo k.pub_lt k.priv_pub h

/-- `cs` is `bs` after the private operation of `k` and then a public one. -/
def Sealed (k : KeyPair) (p : PublicKey) (bs cs : List UInt8) : Prop :=
  ∃ mid, k.privateOp bs = some mid ∧ p.publicOp mid = some cs

theorem sealed_open (h : k.Sealed l.publicKey bs cs) :
    ∃ mid, l.privateOp cs = some mid ∧ k.publicKey.publicOp mid = some bs := by
  obtain ⟨mid, h1, h2⟩ := h
  exact ⟨mid, privateOp_publicOp h2, publicOp_privateOp h1⟩

end KeyPair

theorem blockOp_some {size modulus : Nat} {f : Nat → Nat} {bs : List UInt8}
    (hl : bs.length = size) (hlt : fromBE bs < modulus) :
    ∃ cs, blockOp size modulus f bs = some cs ∧ cs.length = size :=
  ⟨_, if_pos ⟨hl, hlt⟩, length_toBE ..⟩

end Lh1.Lib
