import Rut.Ws.Frame

/-!
# The grammar of frames

The bytes that a frame has on the wire, after RFC 6455, and that `ws_parse_header` reads exactly these.
-/

set_option linter.all false
namespace Rut.Ws

open Incremental

/-- A number in `width` bytes, the most significant first. -/
def bigEndianBytes : Nat → Nat → Str
  | 0, _ => []
  | width + 1, n => bigEndianBytes width (n / 256) ++ [UInt8.ofNat n]

/-- The seven bits of the length of a payload, and the bytes that extend them. -/
def lengthField (n : Nat) : Nat × Str :=
  if n ≤ 125 then (n, []) else if n ≤ 0xFFFF then (126, bigEndianBytes 2 n) else (127, bigEndianBytes 8 n)

structure Frame where
  fin : Bool
  compressed : Bool
  opcode : WsOpcode
  key : Option Key
  payload : Str
deriving DecidableEq

/-- The header of a frame with a payload of `n` bytes, on the wire. -/
def headerWire (fin compressed : Bool) (opcode : WsOpcode) (key : Option Key) (n : Nat) : Str :=
  UInt8.ofNat (128 * fin.toNat + 64 * compressed.toNat + opcode.code) ::
    UInt8.ofNat (128 * key.isSome.toNat + (lengthField n).1) :: ((lengthField n).2 ++ key.elim [] Key.bytes)

structure HeaderOk (allow_compressed fin compressed : Bool) (opcode : WsOpcode) (n : Nat) : Prop where
  length : n < 2 ^ 63
  compressed : compressed = true → allow_compressed = true ∧ (opcode = .text ∨ opcode = .binary)
  control : opcode.isControl = true → fin = true ∧ n ≤ kWsMaxControlPayload ∧ (opcode = .close → n ≠ 1)

namespace Frame

def body (f : Frame) : Str := f.key.elim f.payload (ws_unmask f.payload)

def wire (f : Frame) : Str := headerWire f.fin f.compressed f.opcode f.key f.payload.length ++ f.body

structure WellFormed (masked allow_compressed : Bool) (f : Frame) : Prop where
  key : f.key.isSome = masked
  header : HeaderOk allow_compressed f.fin f.compressed f.opcode f.payload.length

end Frame

/-! ## Numbers -/

@[simp] lemma bigEndian_append (l : Str) (b : UInt8) : bigEndian (l ++ [b]) = bigEndian l * 256 + b.toNat := by
  rw [bigEndian, List.foldl_append]
  rfl

@[simp] lemma length_bigEndianBytes (width n : Nat) : (bigEndianBytes width n).length = width := by
  induction width generalizing n with
  | zero => rfl
  | succ width ih => rw [bigEndianBytes, List.length_append, ih, List.length_singleton]

lemma bigEndian_bytes {width n} (h : n < 256 ^ width) : bigEndian (bigEndianBytes width n) = n := by
  induction width generalizing n with
  | zero =>
    rw [Nat.lt_one_iff.mp h]
    rfl
  | succ width ih =>
    have hlt : n / 256 < 256 ^ width := Nat.div_lt_of_lt_mul (by rwa [Nat.pow_succ'] at h)
    rw [bigEndianBytes, bigEndian_append, ih hlt, UInt8.toNat_ofNat']
    omega

lemma bigEndian_lt (l : Str) : bigEndian l < 256 ^ l.length := by
  induction l using List.reverseRecOn with
  | nil => exact Nat.one_pos
  | append_singleton l b ih =>
    have hb := b.toNat_lt
    rw [bigEndian_append, List.length_append, List.length_singleton, Nat.pow_succ]
    omega

lemma bytes_bigEndian (l : Str) : bigEndianBytes l.length (bigEndian l) = l := by
  induction l using List.reverseRecOn with
  | nil => rfl
  | append_singleton l b ih =>
    have hb := b.toNat_lt
    have hdiv : (bigEndian l * 256 + b.toNat) / 256 = bigEndian l := by omega
    have hbyte : UInt8.ofNat (bigEndian l * 256 + b.toNat) = b := by
      rw [← UInt8.toNat_inj, UInt8.toNat_ofNat']
      omega
    rw [List.length_append, List.length_singleton, bigEndianBytes, bigEndian_append, hdiv, ih, hbyte]

lemma byte_bits (b : UInt8) : (b &&& 0x80 = 0 ↔ b.toNat < 128) ∧ (b &&& 0x7F).toNat < 128 ∧
    b = UInt8.ofNat (128 * (b &&& 0x80 != 0).toNat + (b &&& 0x7F).toNat) := by
  revert b
  apply forall_uint8
  decide +kernel

lemma top_bit {b : UInt8} : b &&& 0x80 = 0 ↔ b.toNat < 128 := (byte_bits b).1

lemma bigEndian_cons (b : UInt8) (l : Str) : bigEndian (b :: l) = b.toNat * 256 ^ l.length + bigEndian l := by
  induction l using List.reverseRecOn with
  | nil => simp [bigEndian]
  | append_singleton l c ih =>
    rw [← List.cons_append, bigEndian_append, ih, bigEndian_append, List.length_append, List.length_singleton,
      Nat.pow_succ]
    ring

/-! ## The reader -/

lemma parseKey_iff {s r : Str} {k} : parseKey s = .done k r ↔ s = k.bytes ++ r := by
  unfold parseKey
  simp only [Reader.bind_eq_done, Reader.token_eq_done, Reader.pure_eq_done]
  constructor
  · rintro ⟨k0, _, rfl, k1, _, rfl, k2, _, rfl, k3, _, rfl, rfl, rfl⟩
    rfl
  · rintro rfl
    exact ⟨_, _, rfl, _, _, rfl, _, _, rfl, _, _, rfl, rfl, rfl⟩

lemma lengthField_lt (n : Nat) : (lengthField n).1 < 128 := by
  unfold lengthField
  split_ifs <;> dsimp only <;> omega

lemma lengthField_short {n : Nat} (h : n ≤ 125) : lengthField n = (n, []) := if_pos h

lemma lengthField_medium {n} (h : 125 < n) (h' : n ≤ 0xFFFF) : lengthField n = (126, bigEndianBytes 2 n) := by
  rw [lengthField, if_neg (by omega), if_pos h']

lemma lengthField_long {n} (h : 0xFFFF < n) : lengthField n = (127, bigEndianBytes 8 n) := by
  rw [lengthField, if_neg (by omega), if_neg (by omega)]

lemma top_bit_iff {bytes} (h : bytes.length = 8) : bytes.headD 0 &&& 0x80 = 0 ↔ bigEndian bytes < 2 ^ 63 := by
  cases bytes with
  | nil => cases h
  | cons b l =>
    have hlen : l.length = 7 := by simpa using h
    have hlt := bigEndian_lt l
    rw [hlen] at hlt
    rw [List.headD_cons, top_bit, bigEndian_cons, hlen]
    omega

lemma parseLength_iff {len7} {s r : Str} {n offset} (hlt : len7.toNat < 128) :
    parseLength len7 s = .done (n, offset) r ↔
      n < 2 ^ 63 ∧ len7.toNat = (lengthField n).1 ∧ offset = 2 + (lengthField n).2.length ∧
        s = (lengthField n).2 ++ r := by
  unfold parseLength
  have h126 : len7 < 126 ↔ len7.toNat < 126 := UInt8.lt_iff_toNat_lt
  have heq : len7 = 126 ↔ len7.toNat = 126 := UInt8.toNat_inj.symm
  by_cases hshort : len7 < 126
  · have hle := h126.mp hshort
    rw [if_pos hshort, Reader.pure_eq_done, Prod.mk.injEq]
    constructor
    · rintro ⟨⟨rfl, rfl⟩, rfl⟩
      rw [lengthField_short (by omega)]
      exact ⟨by omega, rfl, rfl, rfl⟩
    · rintro ⟨-, hfield, rfl, rfl⟩
      have hn : n ≤ 125 := by
        by_contra hn
        rcases Nat.lt_or_ge 0xFFFF n with hlong | hlong
        · rw [lengthField_long hlong] at hfield
          omega
        · rw [lengthField_medium (by omega) hlong] at hfield
          omega
      rw [lengthField_short hn] at hfield ⊢
      exact ⟨⟨hfield, rfl⟩, rfl⟩
  rw [if_neg hshort]
  by_cases hmedium : len7 = 126
  · rw [if_pos hmedium, Reader.bind_eq_done]
    constructor
    · rintro ⟨bytes, r', htake, h⟩
      obtain ⟨rfl, hlen⟩ := Reader.take_eq_done.mp htake
      have hbound := bigEndian_lt bytes
      rw [hlen] at hbound
      split at h
      · cases h
      · rename_i hsmall
        obtain ⟨heq', rfl⟩ := Reader.pure_eq_done.mp h
        cases heq'
        rw [lengthField_medium (by omega) (by omega)]
        refine ⟨by omega, heq.mp hmedium, rfl, ?_⟩
        show bytes ++ r' = bigEndianBytes 2 (bigEndian bytes) ++ r'
        rw [← hlen, bytes_bigEndian]
    · rintro ⟨-, hfield, rfl, rfl⟩
      rw [heq.mp hmedium] at hfield
      have hn : 125 < n ∧ n ≤ 0xFFFF := by
        by_contra hn
        rcases Nat.lt_or_ge 0xFFFF n with hlong | hlong
        · rw [lengthField_long hlong] at hfield
          cases hfield
        · rw [lengthField_short (by omega)] at hfield
          omega
      rw [lengthField_medium hn.1 hn.2]
      refine ⟨_, r, Reader.take_eq_done.mpr ⟨rfl, length_bigEndianBytes 2 n⟩, ?_⟩
      rw [bigEndian_bytes (by omega), if_neg (by omega)]
      rfl
  · rw [if_neg hmedium, Reader.bind_eq_done]
    have h127 : len7.toNat = 127 := by
      have h₁ := mt h126.mpr hshort
      have h₂ := mt heq.mpr hmedium
      omega
    constructor
    · rintro ⟨bytes, r', htake, h⟩
      obtain ⟨rfl, hlen⟩ := Reader.take_eq_done.mp htake
      split_ifs at h with htop hsmall
      · cases h
      · cases h
      · obtain ⟨heq', rfl⟩ := Reader.pure_eq_done.mp h
        cases heq'
        rw [lengthField_long (by omega)]
        refine ⟨(top_bit_iff hlen).mp (not_not.mp htop), h127, rfl, ?_⟩
        show bytes ++ r' = bigEndianBytes 8 (bigEndian bytes) ++ r'
        rw [← hlen, bytes_bigEndian]
    · rintro ⟨hmax, hfield, rfl, rfl⟩
      have hn : 0xFFFF < n := by
        by_contra hn
        rcases Nat.lt_or_ge 125 n with hlong | hlong
        · rw [lengthField_medium hlong (by omega)] at hfield
          omega
        · rw [lengthField_short hlong] at hfield
          omega
      have hback : bigEndian (bigEndianBytes 8 n) = n := bigEndian_bytes (hmax.trans (by decide))
      rw [lengthField_long hn]
      refine ⟨_, r, Reader.take_eq_done.mpr ⟨rfl, length_bigEndianBytes 8 n⟩, ?_⟩
      rw [if_neg (not_not.mpr ((top_bit_iff (length_bigEndianBytes 8 n)).mpr (by rwa [hback]))), hback,
        if_neg (by omega)]
      rfl

/-! ## The first two bytes -/

lemma base_eq {b opcode} (h : b &&& 0x30 = 0) (hop : WsOpcode.ofBits (b &&& 0x0F) = some opcode) :
    b = UInt8.ofNat (128 * (b &&& 0x80 != 0).toNat + 64 * (b &&& 0x40 != 0).toNat + opcode.code) := by
  have hall := forall_uint8 (P := fun b => b &&& 0x30 = 0 → ∀ opcode ∈ WsOpcode.ofBits (b &&& 0x0F),
    b = UInt8.ofNat (128 * (b &&& 0x80 != 0).toNat + 64 * (b &&& 0x40 != 0).toNat + opcode.code)) (by decide +kernel)
  exact hall b h opcode hop

lemma base_bits (fin compressed : Bool) (opcode : WsOpcode) :
    let b := UInt8.ofNat (128 * fin.toNat + 64 * compressed.toNat + opcode.code)
    b &&& 0x30 = 0 ∧ WsOpcode.ofBits (b &&& 0x0F) = some opcode ∧ (b &&& 0x80 != 0) = fin ∧
      (b &&& 0x40 != 0) = compressed := by
  cases fin <;> cases compressed <;> cases opcode <;> decide

lemma second_eq (b : UInt8) : b = UInt8.ofNat (128 * (b &&& 0x80 != 0).toNat + (b &&& 0x7F).toNat) :=
  (byte_bits b).2.2

lemma second_bits (masked : Bool) {n} (h : n < 128) :
    let b := UInt8.ofNat (128 * masked.toNat + n)
    (b &&& 0x80 != 0) = masked ∧ (b &&& 0x7F).toNat = n := by
  have hall : ∀ masked : Bool, ∀ n < 128, let b := UInt8.ofNat (128 * masked.toNat + n)
    (b &&& 0x80 != 0) = masked ∧ (b &&& 0x7F).toNat = n := by decide
  exact hall masked n h

def parsedHeader (fin compressed : Bool) (opcode : WsOpcode) (key : Option Key) (n : Nat) : WsFrameHeader where
  fin := fin
  masked := key.isSome
  opcode := opcode
  mask_key := key.getD .zero
  payload_len := n
  header_len := (headerWire fin compressed opcode key n).length
  compressed := compressed

lemma baseError_iff {b0 b1 opcode require_mask allow_compressed} :
    baseError b0 b1 opcode require_mask allow_compressed = false ↔
      ((b0 &&& 0x40 != 0) = true → allow_compressed = true ∧ (opcode = .text ∨ opcode = .binary)) ∧
      (opcode.isControl = true → (b0 &&& 0x80 != 0) = true ∧ (b1 &&& 0x7F).toNat ≤ 125 ∧
        (opcode = .close → (b1 &&& 0x7F).toNat ≠ 1)) ∧ (b1 &&& 0x80 != 0) = require_mask := by
  have hmax : (decide (b1 &&& 0x7F > 125)) = decide ((b1 &&& 0x7F).toNat > 125) :=
    decide_eq_decide.mpr UInt8.lt_iff_toNat_lt
  have hone : (b1 &&& 0x7F == 1) = decide ((b1 &&& 0x7F).toNat = 1) := by
    rw [Bool.eq_iff_iff, beq_iff_eq, decide_eq_true_iff, ← UInt8.toNat_inj]
    rfl
  have hfin : (b0 &&& 0x80 == 0) = !(b0 &&& 0x80 != 0) := by rw [bne, Bool.not_not]
  unfold baseError
  rw [hmax, hone, hfin, Bool.or_eq_false_iff, Bool.or_eq_false_iff, and_assoc]
  refine and_congr ?_ (and_congr ?_ (bne_eq_false_iff_eq.trans eq_comm))
  · generalize (b0 &&& 0x40 != 0) = compressed
    cases compressed <;> cases allow_compressed <;> simp [Decidable.or_iff_not_imp_left]
  · generalize (b0 &&& 0x80 != 0) = fin
    generalize (b1 &&& 0x7F).toNat = n
    cases opcode.isControl <;> cases fin <;> simp

lemma lengthField_le (n : Nat) : (lengthField n).1 ≤ 125 ↔ n ≤ 125 := by
  unfold lengthField
  split_ifs <;> dsimp only <;> omega

lemma lengthField_eq_one (n : Nat) : (lengthField n).1 = 1 ↔ n = 1 := by
  unfold lengthField
  split_ifs <;> dsimp only <;> omega

lemma parseRest_iff {fin masked compressed opcode len7} {s r : Str} {h} (hlt : len7.toNat < 128) :
    parseRest fin masked compressed opcode len7 s = .done h r ↔
      ∃ key n, h = parsedHeader fin compressed opcode key n ∧ key.isSome = masked ∧ n < 2 ^ 63 ∧
        len7.toNat = (lengthField n).1 ∧ s = (lengthField n).2 ++ key.elim [] Key.bytes ++ r := by
  unfold parseRest
  rw [Reader.bind_eq_done]
  constructor
  · rintro ⟨⟨n, offset⟩, r', hlen, h⟩
    obtain ⟨hn, hfield, rfl, rfl⟩ := (parseLength_iff hlt).mp hlen
    cases masked with
    | true =>
      obtain ⟨key, r', hkey, h⟩ := Reader.bind_eq_done.mp h
      obtain ⟨rfl, rfl⟩ := Reader.pure_eq_done.mp h
      rw [parseKey_iff.mp hkey]
      refine ⟨some key, n, ?_, rfl, hn, hfield, (List.append_assoc ..).symm⟩
      rw [parsedHeader, headerWire]
      simp [Key.bytes]
      omega
    | false =>
      obtain ⟨rfl, rfl⟩ := Reader.pure_eq_done.mp h
      refine ⟨none, n, ?_, rfl, hn, hfield, by rw [Option.elim_none, List.append_nil]⟩
      rw [parsedHeader, headerWire]
      simp
      omega
  · rintro ⟨key, n, rfl, rfl, hn, hfield, rfl⟩
    refine ⟨(n, 2 + (lengthField n).2.length), key.elim [] Key.bytes ++ r, ?_, ?_⟩
    · exact (parseLength_iff hlt).mpr ⟨hn, hfield, rfl, List.append_assoc ..⟩
    · cases key with
      | some key =>
        refine Reader.bind_eq_done.mpr ⟨key, r, parseKey_iff.mpr rfl, Reader.pure_eq_done.mpr ⟨?_, rfl⟩⟩
        rw [parsedHeader, headerWire]
        simp [Key.bytes]
        omega
      | none =>
        refine Reader.pure_eq_done.mpr ⟨?_, rfl⟩
        rw [parsedHeader, headerWire]
        simp
        omega

lemma ws_parse_header_iff {masked allow_compressed} {s r : Str} {h} :
    ws_parse_header masked allow_compressed s = .done h r ↔
      ∃ key, h = parsedHeader h.fin h.compressed h.opcode key h.payload_len ∧ key.isSome = masked ∧
        HeaderOk allow_compressed h.fin h.compressed h.opcode h.payload_len ∧
        s = headerWire h.fin h.compressed h.opcode key h.payload_len ++ r := by
  unfold ws_parse_header
  simp only [Reader.bind_eq_done, Reader.token_eq_done]
  constructor
  · rintro ⟨b0, _, rfl, b1, s, rfl, h⟩
    by_cases hrsv : b0 &&& 0x30 ≠ 0
    · rw [if_pos hrsv] at h
      cases h
    rw [if_neg hrsv] at h
    cases hop : WsOpcode.ofBits (b0 &&& 0x0F) with
    | none =>
      rw [hop] at h
      cases h
    | some opcode =>
    rw [hop] at h
    dsimp only at h
    by_cases hbase : baseError b0 b1 opcode masked allow_compressed = true
    · rw [if_pos hbase] at h
      cases h
    rw [if_neg hbase] at h
    obtain ⟨hcompressed, hcontrol, hmasked⟩ := baseError_iff.mp (Bool.eq_false_of_not_eq_true hbase)
    have hlt := (byte_bits b1).2.1
    obtain ⟨key, n, rfl, hkey, hn, hfield, rfl⟩ := (parseRest_iff hlt).mp h
    refine ⟨key, rfl, hkey.trans hmasked, ⟨hn, hcompressed, fun hc => ?_⟩, ?_⟩
    · obtain ⟨hfin, hmax, hone⟩ := hcontrol hc
      rw [hfield] at hmax hone
      exact ⟨hfin, (lengthField_le n).mp hmax, fun hclose hn => hone hclose ((lengthField_eq_one n).mpr hn)⟩
    · have h₀ := base_eq (not_not.mp hrsv) hop
      have h₁ := second_eq b1
      rw [← hkey, hfield] at h₁
      show b0 :: b1 :: _ = UInt8.ofNat _ :: UInt8.ofNat _ :: _
      dsimp only [parsedHeader]
      rw [← h₀, ← h₁]
      rfl
  · rintro ⟨key, hh, hkey, hok, rfl⟩
    rw [hh]
    dsimp only [parsedHeader]
    refine ⟨_, _, rfl, _, _, rfl, ?_⟩
    obtain ⟨hrsv, hop, hfin, hcompressed⟩ := base_bits h.fin h.compressed h.opcode
    obtain ⟨hmasked, hlen⟩ := second_bits key.isSome (lengthField_lt h.payload_len)
    have hbase : baseError (UInt8.ofNat (128 * h.fin.toNat + 64 * h.compressed.toNat + h.opcode.code))
        (UInt8.ofNat (128 * key.isSome.toNat + (lengthField h.payload_len).1)) h.opcode masked allow_compressed = false := by
      rw [baseError_iff, hfin, hcompressed, hmasked, hlen]
      refine ⟨hok.compressed, fun hc => ?_, hkey⟩
      obtain ⟨hf, hmax, hone⟩ := hok.control hc
      exact ⟨hf, (lengthField_le _).mpr hmax, fun hclose => mt (lengthField_eq_one _).mp (hone hclose)⟩
    rw [if_neg (not_not.mpr hrsv), hop]
    dsimp only
    rw [hbase, if_neg Bool.false_ne_true, hfin, hcompressed, hmasked]
    refine (parseRest_iff ?_).mpr ⟨key, h.payload_len, rfl, rfl, hok.length, hlen, rfl⟩
    rw [hlen]
    exact lengthField_lt _

lemma stable_parseLength (len7 : UInt8) : Stable (parseLength len7) := by
  refine .ite (.pure _) (.ite (.bind (.take 2 ()) fun _ => .ite .failure (.pure _)) ?_)
  exact .bind (.take 8 ()) fun _ => .ite .failure (.ite .failure (.pure _))

lemma stable_parseKey : Stable parseKey :=
  .bind (.token ()) fun _ => .bind (.token ()) fun _ => .bind (.token ()) fun _ => .bind (.token ()) fun _ => .pure _

lemma stable_ws_parse_header (require_mask allow_compressed : Bool) :
    Stable (ws_parse_header require_mask allow_compressed) := by
  refine .bind (.token ()) fun b0 => .bind (.token ()) fun b1 => .ite .failure ?_
  cases WsOpcode.ofBits (b0 &&& 0x0F) with
  | none => exact .failure
  | some opcode =>
    refine .ite .failure (.bind (stable_parseLength _) fun ⟨n, offset⟩ => ?_)
    exact .ite (.bind stable_parseKey fun _ => .pure _) (.pure _)

/-! ## Masks -/

@[simp] lemma length_ws_unmask_chunk (payload : Str) (key : Key) (offset : Nat) :
    (ws_unmask_chunk payload key offset).length = payload.length := List.length_mapIdx

@[simp] lemma length_ws_unmask (payload : Str) (key : Key) : (ws_unmask payload key).length = payload.length :=
  length_ws_unmask_chunk payload key 0

lemma Key.get_congr (k : Key) {i j} (h : i % 4 = j % 4) : k.get i = k.get j := by
  unfold Key.get
  rw [h]

lemma ws_unmask_chunk_append (a b : Str) (key : Key) (offset : Nat) :
    ws_unmask_chunk (a ++ b) key offset = ws_unmask_chunk a key offset ++ ws_unmask_chunk b key (offset + a.length) := by
  unfold ws_unmask_chunk
  rw [List.mapIdx_append]
  refine congrArg _ (List.mapIdx_eq_mapIdx_iff.mpr fun i hi => ?_)
  exact congrArg (b[i] ^^^ ·) (key.get_congr (by omega))

lemma ws_unmask_chunk_self (payload : Str) (key : Key) (offset : Nat) :
    ws_unmask_chunk (ws_unmask_chunk payload key offset) key offset = payload := by
  unfold ws_unmask_chunk
  refine List.ext_getElem (by simp) fun i _ _ => ?_
  simp

/-! ## Frames -/

def WsFrameHeader.frame (h : WsFrameHeader) (body : Str) : Frame where
  fin := h.fin
  compressed := h.compressed
  opcode := h.opcode
  key := if h.masked then some h.mask_key else none
  payload := if h.masked then ws_unmask body h.mask_key else body

def readFrame (masked allow_compressed : Bool) : Reader UInt8 Unit Frame := do
  let h ← ws_parse_header masked allow_compressed
  let body ← Reader.take h.payload_len ()
  pure (h.frame body)

lemma stable_readFrame (masked allow_compressed : Bool) : Stable (readFrame masked allow_compressed) :=
  .bind (stable_ws_parse_header masked allow_compressed) fun _ => .bind (.take _ ()) fun _ => .pure _

lemma parsedHeader_frame (fin compressed : Bool) (opcode : WsOpcode) (key : Option Key) (body : Str) :
    (parsedHeader fin compressed opcode key body.length).frame body =
      ⟨fin, compressed, opcode, key, key.elim body (ws_unmask body)⟩ := by
  cases key <;> rfl

lemma readFrame_iff {masked allow_compressed} {s r : Str} {f} :
    readFrame masked allow_compressed s = .done f r ↔ f.WellFormed masked allow_compressed ∧ s = f.wire ++ r := by
  unfold readFrame
  rw [Reader.bind_eq_done]
  constructor
  · rintro ⟨h, s', hparse, hbody⟩
    obtain ⟨body, r', htake, hpure⟩ := Reader.bind_eq_done.mp hbody
    obtain ⟨rfl, hlen⟩ := Reader.take_eq_done.mp htake
    obtain ⟨rfl, rfl⟩ := Reader.pure_eq_done.mp hpure
    obtain ⟨key, hh, hkey, hok, rfl⟩ := ws_parse_header_iff.mp hparse
    have hframe : h.frame body = ⟨h.fin, h.compressed, h.opcode, key, key.elim body (ws_unmask body)⟩ := by
      rw [← parsedHeader_frame, hlen, ← hh]
    rw [hframe]
    have hpayload : (key.elim body (ws_unmask body)).length = h.payload_len := by
      cases key with
      | none => exact hlen
      | some key => exact (length_ws_unmask body key).trans hlen
    refine ⟨⟨hkey, ?_⟩, ?_⟩
    · dsimp only
      rw [hpayload]
      exact hok
    · rw [Frame.wire, Frame.body]
      rw [hpayload, ← List.append_assoc]
      cases key with
      | none => rfl
      | some key => exact congrArg (headerWire _ _ _ _ _ ++ · ++ r') (ws_unmask_chunk_self body key 0).symm
  · rintro ⟨⟨hkey, hok⟩, rfl⟩
    have hbody : f.body.length = f.payload.length := by
      unfold Frame.body
      cases f.key with
      | none => rfl
      | some key => exact length_ws_unmask f.payload key
    refine ⟨parsedHeader f.fin f.compressed f.opcode f.key f.payload.length, f.body ++ r, ?_, ?_⟩
    · exact ws_parse_header_iff.mpr ⟨f.key, rfl, hkey, hok, List.append_assoc ..⟩
    · refine Reader.bind_eq_done.mpr ⟨f.body, r, Reader.take_eq_done.mpr ⟨rfl, hbody⟩, Reader.pure_eq_done.mpr ⟨?_, rfl⟩⟩
      obtain ⟨fin, compressed, opcode, key, payload⟩ := f
      cases key with
      | none => rfl
      | some key => exact congrArg (Frame.mk _ _ _ _) (ws_unmask_chunk_self payload key 0)

lemma write_base (fin compressed : Bool) (op : WsOpcode) :
    (if fin then 0x80 else 0x00 : UInt8) ||| (if compressed then 0x40 else 0) ||| UInt8.ofNat op.code =
      UInt8.ofNat (128 * fin.toNat + 64 * compressed.toNat + op.code) := by
  cases fin <;> cases compressed <;> cases op <;> decide

lemma write_second (masked : Bool) {n : Nat} (h : n < 128) :
    (if masked then 0x80 else 0x00 : UInt8) ||| UInt8.ofNat n = UInt8.ofNat (128 * masked.toNat + n) := by
  have hall : ∀ masked : Bool, ∀ n < 128,
    (if masked then 0x80 else 0x00 : UInt8) ||| UInt8.ofNat n = UInt8.ofNat (128 * masked.toNat + n) := by decide
  exact hall masked n h

/-- The bytes of the length, as `ws_write_header` computes them. -/
lemma write_length (masked : Bool) (n : Nat) :
    (if n ≤ 125 then [(if masked then 0x80 else 0x00 : UInt8) ||| UInt8.ofNat n] else if n ≤ 0xFFFF then
        [(if masked then 0x80 else 0x00 : UInt8) ||| 126, UInt8.ofNat (n >>> 8), UInt8.ofNat n]
      else ((if masked then 0x80 else 0x00 : UInt8) ||| 127) ::
        (List.range 8).map fun i => UInt8.ofNat (n >>> ((7 - i) * 8))) =
      UInt8.ofNat (128 * masked.toNat + (lengthField n).1) :: (lengthField n).2 := by
  have hmask := fun (m : Nat) (hm : m < 128) => write_second masked hm
  generalize (if masked then 0x80 else 0x00 : UInt8) = mask_bit at hmask ⊢
  unfold lengthField
  split_ifs with hshort hmedium
  · rw [hmask n (by omega)]
  · rw [show (126 : UInt8) = UInt8.ofNat 126 from rfl, hmask 126 (by omega), Nat.shiftRight_eq_div_pow]
    rfl
  · rw [show (127 : UInt8) = UInt8.ofNat 127 from rfl, hmask 127 (by omega)]
    simp [Nat.shiftRight_eq_div_pow, bigEndianBytes, Nat.div_div_eq_div_mul, List.range_succ]

/-- `ws_write_header` writes what the grammar asks for. -/
lemma ws_write_header_iff {op fin masked compressed key n w} : ws_write_header op fin masked key n compressed = some w ↔
      HeaderOk true fin compressed op n ∧ w = headerWire fin compressed op (if masked then some key else none) n := by
  have hwire : headerWire fin compressed op (if masked then some key else none) n =
      UInt8.ofNat (128 * fin.toNat + 64 * compressed.toNat + op.code) ::
        (UInt8.ofNat (128 * masked.toNat + (lengthField n).1) :: (lengthField n).2) ++
          if masked then key.bytes else [] := by
    cases masked <;> rfl
  unfold ws_write_header
  dsimp only
  rw [write_length, write_base, ← hwire]
  generalize headerWire fin compressed op (if masked then some key else none) n = wire
  split_ifs with hcompressed hcontrol hlong
  · refine iff_of_false nofun fun ⟨hok, _⟩ => ?_
    rcases (hok.compressed hcompressed.1).2 with h | h
    · exact hcompressed.2.1 h
    · exact hcompressed.2.2 h
  · refine iff_of_false nofun fun ⟨hok, _⟩ => ?_
    obtain ⟨hfin, hmax, hone⟩ := hok.control hcontrol.1
    rcases hcontrol.2 with h | h | h
    · rw [hfin] at h
      cases h
    · omega
    · exact hone h.1 h.2
  · exact iff_of_false nofun fun ⟨hok, _⟩ => Nat.not_lt.mpr hlong hok.length
  · rw [Option.some.injEq, eq_comm, iff_and_self]
    intro _
    refine ⟨by omega, fun hc => ⟨rfl, ?_⟩, fun hc => ?_⟩
    · by_contra hne
      exact hcompressed ⟨hc, not_or.mp hne⟩
    · have hnot := fun h => hcontrol ⟨hc, h⟩
      refine ⟨?_, ?_, fun hclose hone => hnot (.inr (.inr ⟨hclose, hone⟩))⟩
      · by_contra hfin
        exact hnot (.inl (Bool.eq_false_of_not_eq_true hfin))
      · by_contra hmax
        exact hnot (.inr (.inl (Nat.lt_of_not_le hmax)))

lemma parsedHeader_key {h key} (hh : h = parsedHeader h.fin h.compressed h.opcode key h.payload_len) :
    key = if h.masked then some h.mask_key else none := by
  rw [hh]
  cases key <;> rfl

/-- Headers are written and read back without loss. What `ws_write_header` writes is read as the arguments it was
written from, the masking key of a frame without a mask apart; a header that is read is written again byte for byte; and
a header of which bytes are missing is never refused. -/
theorem ws_header_codec :
    (∀ (op : WsOpcode) (fin masked compressed : Bool) (key : Key) (n : Nat) (w rest : Str),
      ws_write_header op fin masked key n compressed = some w →
      ws_parse_header masked true (w ++ rest) =
        .done ⟨fin, masked, op, if masked then key else .zero, n, w.length, compressed⟩ rest) ∧
    ∀ (require_mask allow_compressed : Bool) (s r : Str) (h : WsFrameHeader),
      ws_parse_header require_mask allow_compressed s = .done h r →
      h.header_len ≤ s.length ∧
      ws_write_header h.opcode h.fin h.masked h.mask_key h.payload_len h.compressed = some (s.take h.header_len) ∧
      ∀ k < h.header_len, ws_parse_header require_mask allow_compressed (s.take k) = .stall () := by
  refine ⟨fun op fin masked compressed key n w rest hw => ?_, fun require_mask allow_compressed s r h hread => ?_⟩
  · obtain ⟨hok, rfl⟩ := ws_write_header_iff.mp hw
    have hmasked : (if masked then some key else none).isSome = masked := by cases masked <;> rfl
    rw [ws_parse_header_iff]
    refine ⟨if masked then some key else none, ?_, hmasked, hok, rfl⟩
    cases masked <;> rfl
  · obtain ⟨key, hh, hmasked, hok, rfl⟩ := ws_parse_header_iff.mp hread
    have hlen : h.header_len = (headerWire h.fin h.compressed h.opcode key h.payload_len).length :=
      congrArg WsFrameHeader.header_len hh
    refine ⟨by rw [hlen, List.length_append]; omega, ?_, fun k hk => ?_⟩
    · rw [ws_write_header_iff, hlen, List.take_left, parsedHeader_key hh]
      exact ⟨⟨hok.length, fun hc => ⟨rfl, (hok.compressed hc).2⟩, hok.control⟩, rfl⟩
    · have hstable := stable_ws_parse_header require_mask allow_compressed
      obtain ⟨_, hstall⟩ := hstable.stall_of_lt hread (List.take_prefix k _) (by
        rw [List.length_take, List.length_append]
        omega)
      exact hstall

/-- The header of a compressed text of three masked bytes, and the same without the last byte of its key. -/
theorem ws_header_codec_text :
    ws_parse_header true true [0xc1, 0x83, 1, 2, 3, 4] = .done ⟨true, true, .text, ⟨1, 2, 3, 4⟩, 3, 6, true⟩ [] ∧
      ws_parse_header true true [0xc1, 0x83, 1, 2, 3] = .stall () := by
  obtain ⟨hwrite, hread⟩ := ws_header_codec
  have hdone := hwrite .text true true true ⟨1, 2, 3, 4⟩ 3 [0xc1, 0x83, 1, 2, 3, 4] [] (by decide)
  exact ⟨hdone, (hread true true _ [] _ hdone).2.2 5 (by decide)⟩

end Rut.Ws
