import Rut.Common.Types
import Rut.Lib.Memory

/-!
# Connection buffers

Port of `Buffer` in `include/rut/common/buffer.h`: a length over storage of a fixed capacity. The storage is kept: bytes
behind the length survive a `reset`, which the in-place moves of the callers rely on. A move reads its source before it
writes (`__builtin_memmove`). The null buffer has capacity zero; the `released_` flag is left out.
-/

namespace Rut

open Lib

/-- A buffer with its storage (`Buffer`). -/
structure Buffer (cap : Nat) where
  mem : Nat → UInt8
  len : Nat
  fits : len ≤ cap

namespace Buffer

variable {cap : Nat} {b : Buffer cap} {xs : Str} {n : Nat}

/-- The bytes the buffer holds (`data()[0..len())`). -/
def bytes (b : Buffer cap) : Str := Memory.read b.mem 0 b.len

/-- `n` bytes of the storage from a position on, the source of a move. -/
def load (b : Buffer cap) (i n : Nat) : Str := Memory.read b.mem i n

def store (b : Buffer cap) (i : Nat) (xs : Str) : Buffer cap := { b with mem := Memory.write b.mem i xs }

/-- Room behind the bytes (`write_avail`). -/
def writeAvail (b : Buffer cap) : Nat := cap - b.len

/-- Forget the bytes (`reset`). -/
def reset (b : Buffer cap) : Buffer cap where
  mem := b.mem
  len := 0
  fits := Nat.zero_le _

/-- Append what fits (`write`). -/
def write (b : Buffer cap) (src : Str) : Buffer cap where
  mem := Memory.write b.mem b.len (src.take (min src.length b.writeAvail))
  len := b.len + min src.length b.writeAvail
  fits := by
    have := b.fits
    rw [writeAvail]
    omega

/-- An absolute length after an edit in place (`set_len`). No result is a trap. -/
def setLen (b : Buffer cap) (n : Nat) : Option (Buffer cap) :=
  if h : n ≤ cap then some { mem := b.mem, len := n, fits := h } else none

/-- Take over `n` bytes that were stored behind the length (`commit`). -/
def commit (b : Buffer cap) (n : Nat) : Option (Buffer cap) := b.setLen (b.len + n)

@[simp] lemma length_bytes (b : Buffer cap) : b.bytes.length = b.len := Memory.length_read ..

@[simp] lemma bytes_reset (b : Buffer cap) : b.reset.bytes = [] := rfl

@[simp] lemma len_reset (b : Buffer cap) : b.reset.len = 0 := rfl

@[simp] lemma len_store (b : Buffer cap) (n : Nat) (xs : Str) : (b.store n xs).len = b.len := rfl

lemma bytes_eq_nil : b.bytes = [] ↔ b.len = 0 := by
  rw [← List.length_eq_zero_iff, length_bytes]

lemma load_behind (h : n ≤ b.len) : b.load n (b.len - n) = b.bytes.drop n := by
  have hread := @Memory.read_drop _ 0 b.mem _ _ h
  rwa [Nat.zero_add] at hread

lemma len_write (h : xs.length ≤ b.writeAvail) : (b.write xs).len = b.len + xs.length :=
  congrArg (b.len + ·) (Nat.min_eq_left h)

lemma mem_write (h : xs.length ≤ b.writeAvail) : (b.write xs).mem = Memory.write b.mem b.len xs := by
  change Memory.write b.mem b.len (xs.take (min xs.length b.writeAvail)) = _
  rw [Nat.min_eq_left h, List.take_length]

lemma bytes_write (h : xs.length ≤ b.writeAvail) : (b.write xs).bytes = b.bytes ++ xs := by
  rw [bytes, mem_write h, len_write h, Memory.read_add, Memory.read_write_of_le (by omega), Nat.zero_add,
    Memory.read_write]
  rfl

lemma load_write (h : xs.length ≤ b.writeAvail) : (b.write xs).load b.len xs.length = xs := by
  rw [load, mem_write h, Memory.read_write]

lemma commit_store (h : xs.length ≤ cap) : ∃ b', (b.reset.store 0 xs).commit xs.length = some b' ∧ b'.bytes = xs := by
  refine ⟨_, dif_pos ((Nat.zero_add _).symm ▸ h), ?_⟩
  change Memory.read (Memory.write b.mem 0 xs) 0 (0 + xs.length) = xs
  rw [Nat.zero_add, Memory.read_write]

lemma setLen_prepend (h : xs.length + b.len ≤ cap) :
    ∃ b', ((b.store xs.length (b.load 0 b.len)).store 0 xs).setLen (xs.length + b.len) = some b' ∧
      b'.bytes = xs ++ b.bytes := by
  refine ⟨_, dif_pos h, ?_⟩
  have hshift := Memory.read_write b.mem xs.length (b.load 0 b.len)
  rw [load, Memory.length_read] at hshift
  have hkept : Memory.read (Memory.write (Memory.write b.mem xs.length (b.load 0 b.len)) 0 xs) xs.length b.len =
      Memory.read (Memory.write b.mem xs.length (b.load 0 b.len)) xs.length b.len :=
    Memory.read_congr fun k hk _ => Memory.write_of_ge (by omega)
  change Memory.read (Memory.write (Memory.write b.mem xs.length (b.load 0 b.len)) 0 xs) 0 (xs.length + b.len) = _
  rw [Memory.read_add, Memory.read_write, Nat.zero_add, hkept, load, hshift]
  rfl

end Buffer

/-! ## Output

The bytes of a buffer that is only written, where a write that does not fit whole ends the writing. -/

structure Output (cap : Nat) where
  bytes : Str
  fits : bytes.length ≤ cap

namespace Output

variable {cap : Nat}

def empty (cap : Nat) : Output cap := ⟨[], Nat.zero_le _⟩

/-- Append all of `s`, if it fits. -/
def write (o : Output cap) (s : Str) : Option (Output cap) :=
  if h : o.bytes.length + s.length ≤ cap then some ⟨o.bytes ++ s, by rwa [List.length_append]⟩ else none

variable {o o' : Output cap} {s t : Str}

@[simp] lemma write_nil (o : Output cap) : o.write [] = some o := by
  simp [write, fits]

@[simp] lemma write_bind (o : Output cap) (s t : Str) : ((o.write s).bind fun o => o.write t) = o.write (s ++ t) := by
  rcases Nat.lt_or_ge cap (o.bytes.length + s.length) with hfull | hroom
  · have hfull' : ¬ o.bytes.length + (s ++ t).length ≤ cap := by
      rw [List.length_append]
      omega
    simp only [write, dif_neg (not_le.2 hfull), dif_neg hfull', Option.bind_none]
  · simp only [write, dif_pos hroom, Option.bind_some, List.length_append, List.append_assoc, Nat.add_assoc]

lemma write_bind_map {ρ : Type} (o : Output cap) (s t : Str) (g : Output cap → ρ) :
    ((o.write s).bind fun o => (o.write t).map g) = (o.write (s ++ t)).map g := by
  rw [← write_bind]
  cases o.write s <;> rfl

lemma write_eq_some : o.write s = some o' ↔ o'.bytes = o.bytes ++ s := by
  obtain ⟨bytes', fits'⟩ := o'
  rw [write]
  constructor
  · intro h
    split at h
    · cases h
      rfl
    · cases h
  · rintro rfl
    rw [List.length_append] at fits'
    rw [dif_pos fits']

lemma write_isSome : (o.write s).isSome ↔ o.bytes.length + s.length ≤ cap := by
  rw [write]
  split <;> simp_all

end Output

end Rut
