import Rut.Hpack.Sizes
import Rut.Http2.Frame

/-!
# Written header blocks

Port of `http2_write_headers` of `src/runtime/http2_conn.cc`. In front of each field the function asks for eight octets
beside the name and the value. A literal takes more if the lengths of both are long, and the sum wraps around the range
of `u32` if they are very long.
-/

namespace Rut.Http2

open Hpack

/-- The loop of `http2_write_headers` behind the octets `block` of the fields before; `.error` is the source's 0. A
write at or behind `out_cap` is a fault. -/
def writeFields (outCap : Nat) : List (Str × Str) → Str → Outcome Str
  | [], block => .ok block
  | (name, value) :: hs, block =>
    let o := kFrameHeaderSize + block.length
    if outCap < (o + name.length + value.length + 8) % 2 ^ 32 then .error
    else
      let block := block ++ encodeHeader name value
      if outCap < kFrameHeaderSize + block.length then .fault else writeFields outCap hs block

/-- `http2_write_headers`: the octets written. -/
def http2WriteHeaders (outCap streamId : Nat) (hs : List (Str × Str)) (endStream : Bool) : Outcome Str :=
  if outCap < kFrameHeaderSize then .error
  else
    (writeFields outCap hs []).bind fun block =>
      let flags := if endStream then kEndHeaders ||| kEndStream else kEndHeaders
      .ok (FrameHeader.bytes ⟨block.length, .headers, flags, streamId⟩ ++ block)

/-- Nothing is written at or behind `out_cap`, and the length of a written frame is the one in its header. -/
structure WrittenWithin (outCap : Nat) (written : Outcome Str) : Prop where
  bound : written ≠ .fault
  length : ∀ frame, written = .ok frame →
    frame.length ≤ outCap ∧ readBe (frame.take 3) = frame.length - kFrameHeaderSize

def Passes (outCap o : Nat) (name value : Str) : Prop := (o + name.length + value.length + 8) % 2 ^ 32 ≤ outCap

def Overruns (outCap : Nat) : Nat → List (Str × Str) → Prop
  | _, [] => False
  | o, (name, value) :: hs =>
    Passes outCap o name value ∧ (outCap < o + fieldSize name value ∨ Overruns outCap (o + fieldSize name value) hs)

def AllPass (outCap : Nat) : Nat → List (Str × Str) → Prop
  | _, [] => True
  | o, (name, value) :: hs => Passes outCap o name value ∧ AllPass outCap (o + fieldSize name value) hs

def blockSize (hs : List (Str × Str)) : Nat := (hs.map fun f => fieldSize f.1 f.2).sum

lemma blockSize_cons (f : Str × Str) (hs : List (Str × Str)) :
    blockSize (f :: hs) = fieldSize f.1 f.2 + blockSize hs := rfl

def Sized (hs : List (Str × Str)) : Prop := ∀ f ∈ hs, f.1.length < 2 ^ 32 ∧ f.2.length < 2 ^ 32

section fields

variable {outCap : Nat} {hs : List (Str × Str)}

lemma writeFields_fault (hsized : Sized hs) (block : Str) :
    writeFields outCap hs block = .fault ↔ Overruns outCap (kFrameHeaderSize + block.length) hs := by
  induction hs generalizing block with
  | nil => exact iff_of_false nofun id
  | cons f hs ih =>
    obtain ⟨name, value⟩ := f
    obtain ⟨⟨hname, hvalue⟩, hsized⟩ := List.forall_mem_cons.mp hsized
    have hsize := length_encodeHeader hname hvalue
    rw [writeFields, Overruns, Passes]
    by_cases hpass : outCap < (kFrameHeaderSize + block.length + name.length + value.length + 8) % 2 ^ 32
    · simp only [if_pos hpass]
      exact iff_of_false nofun fun h => absurd h.1 (Nat.not_le.mpr hpass)
    · simp only [if_neg hpass, List.length_append, hsize, ← Nat.add_assoc]
      by_cases hroom : outCap < kFrameHeaderSize + block.length + fieldSize name value
      · simp only [if_pos hroom]
        exact iff_of_true trivial ⟨Nat.not_lt.mp hpass, .inl hroom⟩
      · rw [if_neg hroom, ih hsized, List.length_append, hsize, ← Nat.add_assoc]
        exact ⟨fun h => ⟨Nat.not_lt.mp hpass, .inr h⟩, fun h => h.2.resolve_left hroom⟩

lemma writeFields_ok (hsized : Sized hs) {block written} (h : writeFields outCap hs block = .ok written)
    (hblock : kFrameHeaderSize + block.length ≤ outCap) :
    AllPass outCap (kFrameHeaderSize + block.length) hs ∧ kFrameHeaderSize + written.length ≤ outCap ∧
      written.length = block.length + blockSize hs := by
  induction hs generalizing block with
  | nil =>
    cases h
    exact ⟨trivial, hblock, rfl⟩
  | cons f hs ih =>
    obtain ⟨⟨hname, hvalue⟩, hsized⟩ := List.forall_mem_cons.mp hsized
    have hsize := length_encodeHeader hname hvalue
    rw [writeFields] at h
    dsimp only at h
    split_ifs at h with hpass hroom
    obtain ⟨hall, hbound, hlen⟩ := ih hsized h (Nat.not_lt.mp hroom)
    rw [List.length_append, hsize] at hall hlen
    refine ⟨⟨Nat.not_lt.mp hpass, by rwa [← Nat.add_assoc] at hall⟩, hbound, ?_⟩
    rw [hlen, blockSize_cons, Nat.add_assoc]

lemma writeFields_of_pass (hsized : Sized hs) (block : Str)
    (hover : ¬ Overruns outCap (kFrameHeaderSize + block.length) hs)
    (hall : AllPass outCap (kFrameHeaderSize + block.length) hs) : ∃ written, writeFields outCap hs block = .ok written := by
  induction hs generalizing block with
  | nil => exact ⟨block, rfl⟩
  | cons f hs ih =>
    obtain ⟨name, value⟩ := f
    obtain ⟨⟨hname, hvalue⟩, hsized⟩ := List.forall_mem_cons.mp hsized
    have hsize := length_encodeHeader hname hvalue
    obtain ⟨hpass, hall⟩ := hall
    have hroom : ¬ outCap < kFrameHeaderSize + block.length + fieldSize name value := fun h => hover ⟨hpass, .inl h⟩
    have hlen : kFrameHeaderSize + (block ++ encodeHeader name value).length =
        kFrameHeaderSize + block.length + fieldSize name value := by
      rw [List.length_append, hsize, Nat.add_assoc]
    rw [writeFields]
    simp only [if_neg (Nat.not_lt.mpr hpass), hlen, if_neg hroom]
    apply ih hsized (block ++ encodeHeader name value)
    · rw [hlen]
      exact fun h => hover ⟨hpass, .inr h⟩
    · rwa [hlen]

end fields

/-! ## Which fields overrun -/

lemma lengthOctets_le (n : Nat) : lengthOctets n ≤ 6 := by
  unfold lengthOctets
  split_ifs <;> omega

lemma lengthOctets_mono {m n} (h : m ≤ n) : lengthOctets m ≤ lengthOctets n := by
  have hstep : ∀ {a c x y : Nat}, c ≤ y → x ≤ y → (if m < a then c else x) ≤ if n < a then c else y := by
    intro a c x y hc hx
    split_ifs <;> omega
  unfold lengthOctets
  refine hstep ?_ (hstep ?_ (hstep ?_ (hstep ?_ (hstep (Nat.le_succ 5) (Nat.le_refl 6)))))
  all_goals split_ifs <;> omega

lemma huffmanSize_le (s : Str) : huffmanSize s ≤ (30 * s.length + 7) / 8 := by
  have hsum : (s.map fun b => (huffCode (octetSym b)).bits).sum ≤ 30 * s.length := by
    induction s with
    | nil => exact Nat.le_refl 0
    | cons b s ih =>
      have hbits := (kHuff_bits _ (huffCode_mem (octetSym b))).2.1
      rw [List.map_cons, List.sum_cons, List.length_cons]
      omega
  unfold huffmanSize
  omega

lemma stringSize_le {s} (hs : s.length < 2 ^ 30) : stringSize s ≤ lengthOctets s.length + s.length := by
  have hle := huffmanSize_le s
  have hmod : huffmanSize s % 2 ^ 32 = huffmanSize s := Nat.mod_eq_of_lt (by omega)
  rw [stringSize, hmod]
  split_ifs with h
  · have hmono := lengthOctets_mono (Nat.le_of_lt h)
    omega
  · exact le_rfl

lemma heavy_lengths {name value} (hlen : name.length + value.length < 2 ^ 30)
    (h : name.length + value.length + 8 < fieldSize name value) :
    staticFindName name = 0 ∧ 8 ≤ lengthOctets name.length + lengthOctets value.length := by
  have hname := stringSize_le (s := name) (by omega)
  have hvalue := stringSize_le (s := value) (by omega)
  have hoctets := lengthOctets_le value.length
  unfold fieldSize at h
  split_ifs at h with hfull hnew hindex
  · omega
  · exact ⟨hnew, by omega⟩
  · omega
  · omega

lemma overruns_heavy {outCap o hs} (ho : o ≤ outCap) (h : Overruns outCap o hs) :
    2 ^ 31 ≤ outCap ∨ ∃ f ∈ hs, 2 ^ 30 ≤ f.1.length + f.2.length ∨
      staticFindName f.1 = 0 ∧ 8 ≤ lengthOctets f.1.length + lengthOctets f.2.length := by
  induction hs generalizing o with
  | nil => exact h.elim
  | cons f hs ih =>
    obtain ⟨name, value⟩ := f
    obtain ⟨hpass, h⟩ := h
    by_cases hroom : outCap < o + fieldSize name value
    · by_contra hnot
      rw [not_or, Nat.not_le] at hnot
      obtain ⟨hcap, hnone⟩ := hnot
      have hfield : ¬ (2 ^ 30 ≤ name.length + value.length ∨
          staticFindName name = 0 ∧ 8 ≤ lengthOctets name.length + lengthOctets value.length) :=
        fun h => hnone ⟨(name, value), List.mem_cons_self, h⟩
      rw [not_or, Nat.not_le] at hfield
      -- without a wrap the check has asked for eight octets beside the field
      have hplain : (o + name.length + value.length + 8) % 2 ^ 32 = o + name.length + value.length + 8 :=
        Nat.mod_eq_of_lt (by omega)
      rw [Passes, hplain] at hpass
      exact hfield.2 (heavy_lengths hfield.1 (by omega))
    · obtain hcap | ⟨f, hf, hheavy⟩ := ih (Nat.not_lt.mp hroom) (h.resolve_left hroom)
      · exact .inl hcap
      · exact .inr ⟨f, List.mem_cons_of_mem _ hf, hheavy⟩

/-! ## The frame -/

lemma readBe_frameHeader (h : FrameHeader) (rest : Str) : readBe ((h.bytes ++ rest).take 3) = h.length % 2 ^ 24 := by
  have hlen : ∀ k v, (writeBe k v).length = k := length_writeBe
  simp [FrameHeader.bytes, hlen, readBe_writeBe]

lemma length_frameHeader (h : FrameHeader) : h.bytes.length = kFrameHeaderSize := by
  simp [FrameHeader.bytes, length_writeBe, kFrameHeaderSize]

lemma stringSize_replicate {n} (hn : n < 2 ^ 30) : stringSize (List.replicate n 0xff) = lengthOctets n + n := by
  have hbits : (huffCode (octetSym 0xff)).bits = 26 := by decide
  have hsize : huffmanSize (List.replicate n 0xff) = (n * 26 + 7) / 8 := by
    rw [huffmanSize, List.map_replicate, List.sum_replicate, hbits, smul_eq_mul]
  have hmod : (n * 26 + 7) / 8 % 2 ^ 32 = (n * 26 + 7) / 8 := Nat.mod_eq_of_lt (by omega)
  rw [stringSize, hsize, hmod, List.length_replicate, if_neg (by omega)]

end Rut.Http2
