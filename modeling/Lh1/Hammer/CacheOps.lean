/-
  How the functions of the buffer cache end.

  * `flushBuffer_ok`: what a buffer that was written leaves behind.
  * `avoids_evict`: evicting a buffer fails only if writing it does.
-/
import Lh1.Hammer.Cache

namespace Lh1.Hammer.Cache

open Lib

/-! ## How the primitives end -/

section

variable {cfg : Config} {s s' : State} {p : Ptr} {b : BufferInfo} {u : Unit}

@[simp] theorem deref_ok : deref p s = .ok (b, s') ↔ s.heap.get p = some b ∧ s' = s := by
  unfold deref
  cases s.heap.get p with
  | none => simp
  | some c => simp [eq_comm]

@[simp] theorem update_ok {f : BufferInfo → BufferInfo} : update p f s = .ok (u, s') ↔
    (∃ b, s.heap.get p = some b) ∧ s' = { s with heap := s.heap.modify p f } := by
  unfold update
  cases s.heap.get p with
  | none => simp
  | some c => simp [eq_comm]

@[simp] theorem check_ok {q : Prop} [Decidable q] {e : Fault} :
    check q e s = .ok (u, s') ↔ q ∧ s' = s := by
  unfold check
  split
  next h => simp [pure_ok_iff, h]
  next h => simp [fail, h]

@[simp] theorem modify_ok {f : State → State} :
    (modify f : CacheM Unit) s = .ok (u, s') ↔ s' = f s := by
  constructor
  · intro h
    cases h
    rfl
  · rintro rfl
    rfl

variable {α : Type} {r : α × State}

theorem modify_bind {g : State → State} {f : Unit → CacheM α} :
    ((modify g : CacheM Unit) >>= f) s = f () (g s) := rfl

theorem get_bind {f : State → CacheM α} : ((get : CacheM State) >>= f) s = f s s := rfl

def written (disks : Nat → Image) (volNo : Nat) (offset : Int) (data : Block) : Nat → Image :=
  Function.update disks volNo ((disks volNo).write offset.toNat (List.ofFn data))

theorem writeBlock_ok {volume : VolumeInfo} {offset : Int} {data : Block}
    (h : writeBlock cfg volume offset data s = .ok (u, s')) :
    volume.rdonly = true ∧ s' = s ∨ volume.rdonly = false ∧
      s' = { s with disks := written s.disks volume.volNo offset data, io := s.io + 1 } := by
  unfold writeBlock at h
  split at h
  next hr =>
    cases h
    exact Or.inl ⟨hr, rfl⟩
  next hr =>
    split at h
    · cases h
      exact Or.inr ⟨by simpa using hr, rfl⟩
    · cases h

end

/-! ## Flushing and evicting -/

section

variable {cfg : Config} {heap : Store Ptr BufferInfo} {s s' : State} {p q : Ptr}
  {b c : BufferInfo} {u : Unit}

theorem get_erase_inv (h : (heap.erase p).get q = some c) : q ≠ p ∧ heap.get q = some c := by
  rw [Store.get_erase] at h
  split at h
  · cases h
  · exact ⟨‹_›, h⟩

theorem flushBuffer_ok (h : flushBuffer cfg p s = .ok (u, s')) :
    ∃ b, s.heap.get p = some b ∧
      (b.volume.rdonly = true ∧
        s' = { s with heap := s.heap.modify p fun b => { b with modified := false } } ∨
      b.volume.rdonly = false ∧ s' = { s with
        heap := s.heap.modify p fun b => { b with modified := false }
        disks := written s.disks b.volume.volNo b.rawOffset b.ondisk
        io := s.io + 1 }) := by
  rw [flushBuffer] at h
  simp only [bind_ok_iff, deref_ok, update_ok] at h
  obtain ⟨b, t, ⟨hb, rfl⟩, v, t', hw, -, rfl⟩ := h
  rcases writeBlock_ok hw with ⟨hr, rfl⟩ | ⟨hr, rfl⟩
  · exact ⟨b, hb, Or.inl ⟨hr, rfl⟩⟩
  · exact ⟨b, hb, Or.inr ⟨hr, rfl⟩⟩

theorem int32_eq {a : Int} (h : -2 ^ 31 ≤ a) (h' : a < 2 ^ 31) : int32 a = a := by
  unfold int32
  rw [Int.bmod_def]
  norm_num at *
  split
  · omega
  · omega

/-- Writing a block fails only if the I/O call does. -/
theorem avoids_writeBlock (cfg : Config) (volume : VolumeInfo) (offset : Int) (data : Block) :
    Avoids (· ≠ .exit) (writeBlock cfg volume offset data) s := by
  intro e he
  unfold writeBlock at he
  split at he
  · cases he
  · split at he <;> cases he
    exact not_not.mpr rfl

theorem avoids_flushBuffer {E : Fault → Prop} (hb : s.heap.get p = some b)
    (hwrite : ∀ t, Avoids E (writeBlock cfg b.volume b.rawOffset b.ondisk) t) :
    Avoids E (flushBuffer cfg p) s := by
  rw [flushBuffer, avoids_bind_ok (deref_ok.mpr ⟨hb, rfl⟩), avoids_bind]
  refine ⟨hwrite s, fun _ t ht => ?_⟩
  have hheap : t.heap = s.heap := by
    rcases writeBlock_ok ht with ⟨-, rfl⟩ | ⟨-, rfl⟩ <;> rfl
  exact avoids_of_ok (a := ()) (update_ok.mpr ⟨⟨b, hheap ▸ hb⟩, rfl⟩)

/-- The assertion of `rel_buffer` holds for a buffer that is evicted, so that only writing it may
    fail. -/
theorem avoids_evict_of {E : Fault → Prop} (hb : s.heap.get p = some b)
    (hwrite : ∀ t, Avoids E (writeBlock cfg b.volume b.rawOffset b.ondisk) t) :
    Avoids E (evict cfg p) s := by
  have hb1 := Store.get_modify_some (fun b => { b with refs := 1, delete := true }) hb
  have hb2 := Store.get_modify_some (fun b : BufferInfo => { b with refs := b.refs - 1 }) hb1
  rw [evict, avoids_bind_ok (a := ()) (update_ok.mpr ⟨⟨b, hb⟩, rfl⟩), relBuffer,
    avoids_bind_ok (deref_ok.mpr ⟨hb1, rfl⟩),
    avoids_bind_ok (a := ()) (check_ok.mpr ⟨Nat.one_pos, rfl⟩),
    avoids_bind_ok (a := ()) (update_ok.mpr ⟨⟨_, hb1⟩, rfl⟩), if_pos ⟨rfl, rfl⟩, avoids_bind]
  refine ⟨?_, fun _ t _ => avoids_of_ok rfl⟩
  split
  · exact avoids_flushBuffer hb2 hwrite
  · exact avoids_pure ()

theorem avoids_evict (hb : s.heap.get p = some b) : Avoids (· ≠ .exit) (evict cfg p) s :=
  avoids_evict_of hb fun _ => avoids_writeBlock cfg _ _ _

end

end Lh1.Hammer.Cache
