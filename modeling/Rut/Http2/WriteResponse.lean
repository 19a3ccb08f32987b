import Rut.Common.Decimal
import Rut.Hpack.Lockstep
import Rut.Http.Fields
import Rut.Http2.Conn
import Rut.Http2.WriteHeaders

/-!
# Written responses

Port of `http2_write_response` of `src/runtime/http2_conn.cc`. The header block is built in a buffer of its own, with a
copy of the encoder that replaces the encoder only if the response is written. `.error` is the source's 0; a write behind
the end of either buffer is a fault.
-/

set_option linter.all false
namespace Rut.Http2

open Hpack

/-- `sizeof(hblock)`. -/
def kHblockSize : Nat := 8192
def kHpackFieldOverhead : Nat := 11

/-- The three digits of `:status`. -/
def statusText (status : Nat) : Str :=
  [UInt8.ofNat ((ch '0').toNat + status / 100 % 10), UInt8.ofNat ((ch '0').toNat + status / 10 % 10),
    UInt8.ofNat ((ch '0').toNat + status % 10)]

/-- The name in lower case; a name that does not fit the buffer for it must not have letters in upper case. -/
def loweredName (name : Str) : Option Str :=
  if name.length ≤ 256 then some (Http.lower name)
  else if name.any fun c => ch 'A' ≤ c ∧ c ≤ ch 'Z' then none
  else some name

def putField (name value : Str) (s : Str × Encoder) : Outcome (Str × Encoder) :=
  (s.2.encode name value).bind fun r =>
    if kHblockSize < s.1.length + r.1.length then .fault else .ok (s.1 ++ r.1, r.2)

def headerSum (reserve : Nat) (f : Hpack.Field) (s : Str × Encoder) : Nat :=
  s.1.length + f.1.length + f.2.length + kHpackFieldOverhead + reserve

def responseFields (reserve : Nat) : List Hpack.Field → Str × Encoder → Outcome (Str × Encoder)
  | [], s => .ok s
  | f :: hdrs, s =>
    if kHblockSize < headerSum reserve f s % 2 ^ 32 then .error
    else
      match loweredName f.1 with
      | none => .error
      | some name => (putField name f.2 s).bind (responseFields reserve hdrs)

def putContentLength (bodyLen : Nat) (s : Str × Encoder) : Outcome (Str × Encoder) :=
  if bodyLen = 0 then .ok s
  else if kHblockSize < (s.1.length + 14 + (u32ToDec bodyLen).length + kHpackFieldOverhead) % 2 ^ 32 then .error
  else putField contentLengthField (u32ToDec bodyLen) s

def clReserve (bodyLen : Nat) : Nat := if 0 < bodyLen then 14 + 10 + kHpackFieldOverhead else 0

def responseBlock (enc : Encoder) (status : Nat) (hdrs : List Hpack.Field) (bodyLen : Nat) : Outcome (Str × Encoder) :=
  (putField statusName (statusText status) enc.emitPendingSizeUpdate).bind fun s =>
    (responseFields (clReserve bodyLen) hdrs s).bind (putContentLength bodyLen)

def http2WriteData (streamId : Nat) (data : Str) (endStream : Bool) : Str :=
  FrameHeader.bytes ⟨data.length, .data, if endStream then kEndStream else 0, streamId⟩ ++ data

/-- `http2_write_response_impl` with a body. -/
def http2WriteResponseImpl (outCap : Nat) (enc : Encoder) (streamId status : Nat) (hdrs : List Hpack.Field) (body : Str) :
    Outcome (Str × Encoder) :=
  (responseBlock enc status hdrs body.length).bind fun s =>
    let need := kFrameHeaderSize + s.1.length + if 0 < body.length then kFrameHeaderSize + body.length else 0
    if outCap < need % 2 ^ 32 then .error
    else if outCap < need then .fault
    else
      let flags := kEndHeaders ||| if body.length = 0 then kEndStream else 0
      .ok (FrameHeader.bytes ⟨s.1.length, .headers, flags, streamId⟩ ++ s.1 ++
        (if 0 < body.length then http2WriteData streamId body true else []), s.2)

/-- `http2_write_response`: the octets written and the encoder afterwards. -/
def http2WriteResponse (outCap : Nat) (enc : Encoder) (streamId status : Nat) (hdrs : List Hpack.Field) (body : Str) :
    Outcome (Str × Encoder) :=
  match http2WriteResponseImpl outCap enc streamId status hdrs body with
  | .ok r => .ok r
  | .error => .ok ([], enc)
  | .fault => .fault

/-! ## Names -/

lemma lower_eq_self {name} (h : (name.any fun c => ch 'A' ≤ c ∧ c ≤ ch 'Z') = false) : Http.lower name = name := by
  have hsame : ∀ c ∈ name, Http.asciiLower c = c := by
    intro c hc
    have hc' := List.any_eq_false.mp h c hc
    exact if_neg (by simpa using hc')
  rw [Http.lower, List.map_congr_left hsame, List.map_id']

lemma loweredName_eq {name name'} (h : loweredName name = some name') : name' = Http.lower name := by
  unfold loweredName at h
  split_ifs at h with hshort hupper
  · cases h
    rfl
  · cases h
    rw [lower_eq_self (Bool.eq_false_of_not_eq_true hupper)]

/-! ## Sizes -/

def Moderate (f : Hpack.Field) : Prop := f.1.length + f.2.length ≤ kHblockSize

lemma Moderate.sendable {f} (h : Moderate f) : Sendable f := by
  have hle : f.1.length + f.2.length ≤ 8192 := h
  refine ⟨⟨by omega, fun _ => by omega⟩, ⟨by omega, fun _ => by omega⟩, ?_⟩
  rw [Field.size]
  omega

lemma lengthOctets_moderate {n} (h : n ≤ 8192) : lengthOctets n ≤ 3 := by
  unfold lengthOctets
  split_ifs <;> omega

section put

variable {enc : Encoder} {es : List Hpack.Field} {f : Hpack.Field}

lemma encode_moderate (H : Holds enc.dyn es) (hf : Moderate f) :
    ∃ o enc' es', enc.encode f.1 f.2 = .ok (o, enc') ∧ Holds enc'.dyn es' ∧
      o.length ≤ f.1.length + f.2.length + kHpackFieldOverhead := by
  have hle : f.1.length + f.2.length ≤ 8192 := hf
  have hover : kHpackFieldOverhead = 11 := rfl
  have hname := stringSize_le (s := f.1) (by omega)
  have hvalue := stringSize_le (s := f.2) (by omega)
  have hn := lengthOctets_moderate (n := f.1.length) (by omega)
  have hv := lengthOctets_moderate (n := f.2.length) (by omega)
  obtain ⟨idx, h, -, hlt, -⟩ | ⟨nidx, dyn, h, hlt, -, -, H', -⟩ := encode_cases H hf.sendable.size
  · refine ⟨_, _, _, h, H, ?_⟩
    rw [length_encodeInteger _ hlt]
    have := lengthOctets_le idx
    omega
  · refine ⟨_, _, _, h, H', ?_⟩
    rw [List.length_append, List.length_append, length_encodeString (by omega)]
    by_cases hnew : nidx = 0
    · subst hnew
      rw [if_pos rfl, length_encodeString (by omega)]
      have hzero : (encodeInteger 0 6 0x40).length = 1 := rfl
      omega
    · have hidx := (@encodeInteger_text 6 0x40 nidx (by decide) (by decide) rfl hlt []).2
      rw [if_neg hnew, List.length_nil]
      omega

lemma huffmanSize_ge (s : Str) : 5 * s.length ≤ 8 * huffmanSize s := by
  have hsum : 5 * s.length ≤ (s.map fun b => (huffCode (octetSym b)).bits).sum := by
    induction s with
    | nil => exact Nat.le_refl 0
    | cons b s ih =>
      have hbits := (kHuff_bits _ (huffCode_mem (octetSym b))).1
      rw [List.map_cons, List.sum_cons, List.length_cons]
      omega
  unfold huffmanSize
  omega

lemma length_encodeString_ge (s : Str) : 5 * s.length ≤ 8 * (encodeString s).length := by
  have hhuff := huffmanSize_ge s
  rw [encodeString]
  split
  · rw [List.length_append, length_huffmanEncode]
    omega
  · rw [List.length_append]
    omega

lemma indexed_short (H : Holds enc.dyn es) {i : Nat} (h : (indexed es)[i]? = some f) : f.1.length + f.2.length ≤ 4096 := by
  have hstatic : ∀ e ∈ kStatic, e.1.length + e.2.length ≤ 4096 := by decide
  have hmem := List.mem_of_getElem? h
  rw [indexed, List.mem_append, List.mem_reverse] at hmem
  rcases hmem with hmem | hmem
  · exact hstatic f hmem
  · have hsize : Field.size f ≤ Lib.BoundedQueue.total Field.size es := List.single_le_sum (by simp) _ (List.mem_map_of_mem hmem)
    have hmax : enc.dyn.tableSize ≤ 4096 := H.cap
    rw [H.size] at hmax
    rw [Field.size] at hsize
    omega

lemma putField_large (H : Holds enc.dyn es) (hb : Str) (hf : 2 ^ 31 ≤ f.1.length + f.2.length) :
    putField f.1 f.2 (hb, enc) = .fault := by
  have hdyn : ¬ 0 < dynFindFull enc.dyn f.1 f.2 := by
    intro hpos
    obtain ⟨g, hget, hg, -⟩ := H.toRep.dynFind_get hpos
    obtain rfl : g = f := beq_iff_eq.mp hg
    have hshort := indexed_short H hget
    omega
  have hfull : ¬ 0 < staticFindFull f.1 f.2 := by
    intro hpos
    obtain ⟨g, hget, hg⟩ := findIndex_get es hpos
    obtain rfl : g = f := beq_iff_eq.mp hg
    have hshort := indexed_short H hget
    omega
  have hname : staticFindName f.1 ≠ 0 ∨ dynFindName enc.dyn f.1 ≠ 0 → f.1.length ≤ 4096 := by
    intro hidx
    rcases hidx with hidx | hidx
    · obtain ⟨g, hget, hg⟩ := findIndex_get es (Nat.pos_of_ne_zero hidx)
      have hshort := indexed_short H hget
      rw [beq_iff_eq.mp hg] at hshort
      omega
    · obtain ⟨g, hget, hg, -⟩ := H.toRep.dynFind_get (Nat.pos_of_ne_zero hidx)
      have hshort := indexed_short H hget
      rw [beq_iff_eq.mp hg] at hshort
      omega
  have hvalue := length_encodeString_ge f.2
  have hspelled := length_encodeString_ge f.1
  have hblock : kHblockSize = 8192 := rfl
  rw [putField, Encoder.encode, if_neg hdyn, if_neg hfull]
  dsimp only
  generalize hnidx : (if staticFindName f.1 = 0 then dynFindName enc.dyn f.1 else staticFindName f.1) = nidx
  have hlong : kHblockSize < hb.length + (encodeInteger nidx 6 0x40 ++
      (if nidx = 0 then encodeString f.1 else []) ++ encodeString f.2).length := by
    rw [List.length_append, List.length_append]
    by_cases hnew : nidx = 0
    · rw [if_pos hnew]
      omega
    · have hle := hname (by
        by_cases hz : staticFindName f.1 = 0
        · rw [if_pos hz] at hnidx
          exact .inr (hnidx ▸ hnew)
        · exact .inl hz)
      omega
  cases hadd : enc.dyn.add f.1 f.2 with
  | ok dyn => exact if_pos hlong
  | fault => rfl
  | error =>
    rw [DynamicTable.add] at hadd
    dsimp only at hadd
    split_ifs at hadd

lemma putField_ok (H : Holds enc.dyn es) (hb : Str)
    (hf : hb.length + (f.1.length + f.2.length) + kHpackFieldOverhead ≤ kHblockSize) :
    ∃ o enc' es', enc.encode f.1 f.2 = .ok (o, enc') ∧ putField f.1 f.2 (hb, enc) = .ok (hb ++ o, enc') ∧
      Holds enc'.dyn es' ∧ o.length ≤ f.1.length + f.2.length + kHpackFieldOverhead := by
  obtain ⟨o, enc', es', henc, H', hlen⟩ := encode_moderate H (f := f) (by unfold Moderate; omega)
  refine ⟨o, enc', es', henc, ?_, H', hlen⟩
  rw [putField, henc]
  exact if_neg (by dsimp only; omega)

end put

/-! ## The header block -/

def loweredFields (hdrs : List Hpack.Field) : List Hpack.Field := hdrs.map fun f => (Http.lower f.1, f.2)

def PassesAll (reserve : Nat) : List Hpack.Field → Str × Encoder → Prop
  | [], _ => True
  | f :: hdrs, s =>
    headerSum reserve f s % 2 ^ 32 ≤ kHblockSize ∧ loweredName f.1 ≠ none ∧
      ∀ s', putField (Http.lower f.1) f.2 s = .ok s' → PassesAll reserve hdrs s'

/-- A header passes the checks because the sum of the lengths wraps around. -/
def SumWraps (reserve : Nat) : List Hpack.Field → Str × Encoder → Prop
  | [], _ => False
  | f :: hdrs, s =>
    headerSum reserve f s % 2 ^ 32 ≤ kHblockSize ∧ loweredName f.1 ≠ none ∧
      (2 ^ 32 ≤ headerSum reserve f s ∨ ∃ s', putField (Http.lower f.1) f.2 s = .ok s' ∧ SumWraps reserve hdrs s')

section fields

variable {reserve : Nat} {hdrs : List Hpack.Field} {s : Str × Encoder} {es : List Hpack.Field}

lemma length_lower (name : Str) : (Http.lower name).length = name.length := List.length_map _

lemma responseFields_cons {f} (hsum : headerSum reserve f s % 2 ^ 32 ≤ kHblockSize) (hname : loweredName f.1 ≠ none) :
    responseFields reserve (f :: hdrs) s = (putField (Http.lower f.1) f.2 s).bind (responseFields reserve hdrs) := by
  rw [responseFields, if_neg (Nat.not_lt.mpr hsum)]
  cases h : loweredName f.1 with
  | none => exact absurd h hname
  | some name => rw [loweredName_eq h]

lemma responseFields_refused {f} (h : ¬ (headerSum reserve f s % 2 ^ 32 ≤ kHblockSize ∧ loweredName f.1 ≠ none)) :
    responseFields reserve (f :: hdrs) s = .error := by
  rw [responseFields]
  split
  · rfl
  · rename_i hsum
    cases hname : loweredName f.1 with
    | none => rfl
    | some name => exact absurd ⟨Nat.not_lt.mp hsum, by rw [hname]; simp⟩ h

lemma responseFields_wraps (H : Holds s.2.dyn es) (hroom : s.1.length + reserve ≤ kHblockSize)
    (h : SumWraps reserve hdrs s) : responseFields reserve hdrs s = .fault := by
  induction hdrs generalizing s es with
  | nil => exact h.elim
  | cons f hdrs ih =>
    obtain ⟨hsum, hname, h⟩ := h
    have hblock : kHblockSize = 8192 := rfl
    have hover : kHpackFieldOverhead = 11 := rfl
    have hlower := length_lower f.1
    rw [responseFields_cons hsum hname]
    by_cases hwrap : 2 ^ 32 ≤ headerSum reserve f s
    · have hlarge : 2 ^ 31 ≤ (Http.lower f.1).length + f.2.length := by
        rw [headerSum] at hwrap
        omega
      rw [putField_large (f := (Http.lower f.1, f.2)) H s.1 hlarge]
      rfl
    · obtain ⟨s', hput, h⟩ := h.resolve_left hwrap
      rw [headerSum] at hsum hwrap
      obtain ⟨o, enc', es', -, hput', H', hlen⟩ :=
        putField_ok (f := (Http.lower f.1, f.2)) H s.1 (by dsimp only; omega)
      cases hput.symm.trans hput'
      rw [hput]
      dsimp only at hlen
      exact ih H' (by rw [List.length_append]; omega) h

lemma responseFields_plain (H : Holds s.2.dyn es) (hroom : s.1.length + reserve ≤ kHblockSize)
    (h : ¬ SumWraps reserve hdrs s) : (¬ PassesAll reserve hdrs s ∧ responseFields reserve hdrs s = .error) ∨
    (PassesAll reserve hdrs s ∧ ∃ os enc' es', s.2.encodeAll (loweredFields hdrs) = .ok (os, enc') ∧
      responseFields reserve hdrs s = .ok (s.1 ++ os, enc') ∧ Holds enc'.dyn es' ∧
      (s.1 ++ os).length + reserve ≤ kHblockSize ∧ ∀ f ∈ loweredFields hdrs, Moderate f) := by
  induction hdrs generalizing s es with
  | nil =>
    refine .inr ⟨trivial, [], s.2, es, rfl, by rw [List.append_nil]; rfl, H, by rwa [List.append_nil], ?_⟩
    exact fun f hf => absurd hf List.not_mem_nil
  | cons f hdrs ih =>
    have hlower := length_lower f.1
    by_cases hcheck : headerSum reserve f s % 2 ^ 32 ≤ kHblockSize ∧ loweredName f.1 ≠ none
    swap
    · exact .inl ⟨fun hall => hcheck ⟨hall.1, hall.2.1⟩, responseFields_refused hcheck⟩
    obtain ⟨hsum, hname⟩ := hcheck
    have hplain : headerSum reserve f s ≤ kHblockSize := by
      by_contra hbig
      exact h ⟨hsum, hname, .inl (by omega)⟩
    rw [headerSum] at hplain
    obtain ⟨o, enc', es', henc, hput, H', hlen⟩ :=
      putField_ok (f := (Http.lower f.1, f.2)) H s.1 (by dsimp only; omega)
    dsimp only at hlen henc hput
    have hput' : putField (Http.lower f.1) f.2 s = .ok (s.1 ++ o, enc') := hput
    rw [responseFields_cons hsum hname, hput']
    obtain ⟨hnot, herror⟩ | ⟨hall, os, enc'', es'', hencs, hok, H'', hroom', hmod⟩ :=
      ih (s := (s.1 ++ o, enc')) H' (by rw [List.length_append]; omega)
        (fun hw => h ⟨hsum, hname, .inr ⟨_, hput', hw⟩⟩)
    · exact .inl ⟨fun hall => hnot (hall.2.2 _ hput'), herror⟩
    · refine .inr ⟨⟨hsum, hname, fun s' hs' => ?_⟩, o ++ os, enc'', es'', ?_, ?_, H'', ?_, ?_⟩
      · cases hput'.symm.trans hs'
        exact hall
      · rw [loweredFields, List.map_cons, encodeAll_cons, henc]
        simp only [Outcome.bind]
        rw [← loweredFields, hencs]
      · rw [← List.append_assoc]
        exact hok
      · rwa [← List.append_assoc]
      · rw [loweredFields, List.map_cons]
        refine List.forall_mem_cons.mpr ⟨?_, hmod⟩
        unfold Moderate
        dsimp only
        omega

end fields

def responseHeaders (status : Nat) (hdrs : List Hpack.Field) (bodyLen : Nat) : List Hpack.Field :=
  [(statusName, statusText status)] ++ loweredFields hdrs ++
    if bodyLen = 0 then [] else [(contentLengthField, u32ToDec bodyLen)]

/-- The headers pass the checks behind the updates of the size and the status. -/
def HeadersPass (enc : Encoder) (status : Nat) (hdrs : List Hpack.Field) (bodyLen : Nat) : Prop :=
  ∀ s, putField statusName (statusText status) enc.emitPendingSizeUpdate = .ok s → PassesAll (clReserve bodyLen) hdrs s

def HeaderWraps (enc : Encoder) (status : Nat) (hdrs : List Hpack.Field) (bodyLen : Nat) : Prop :=
  ∃ s, putField statusName (statusText status) enc.emitPendingSizeUpdate = .ok s ∧ SumWraps (clReserve bodyLen) hdrs s

section block

variable {enc : Encoder} {dec : DynamicTable} {es : List Hpack.Field} {bodyLen : Nat}

lemma encodeAll_single {f o enc'} (h : enc.encode f.1 f.2 = .ok (o, enc')) : enc.encodeAll [f] = .ok (o, enc') := by
  rw [encodeAll_cons, h]
  exact congrArg (fun o => Outcome.ok (o, enc')) (List.append_nil o)

lemma putContentLength_ok {s} (H : Holds s.2.dyn es) (hbody : bodyLen < 2 ^ 32)
    (hroom : s.1.length + clReserve bodyLen ≤ kHblockSize) :
    ∃ os enc', s.2.encodeAll (if bodyLen = 0 then [] else [(contentLengthField, u32ToDec bodyLen)]) = .ok (os, enc') ∧
      putContentLength bodyLen s = .ok (s.1 ++ os, enc') ∧ (s.1 ++ os).length ≤ kHblockSize := by
  have hblock : kHblockSize = 8192 := rfl
  rw [putContentLength]
  by_cases hzero : bodyLen = 0
  · rw [if_pos hzero, if_pos hzero]
    refine ⟨[], s.2, rfl, by rw [List.append_nil], ?_⟩
    rw [List.append_nil]
    omega
  have hlen := (length_u32ToDec hbody).2
  have hname : contentLengthField.length = 14 := rfl
  rw [clReserve, if_pos (by omega)] at hroom
  obtain ⟨o, enc', es', henc, hput, -, hsize⟩ :=
    putField_ok (f := (contentLengthField, u32ToDec bodyLen)) H s.1 (by dsimp only; omega)
  dsimp only at hsize hput
  rw [if_neg hzero, if_neg hzero, Nat.mod_eq_of_lt (by omega), if_neg (by omega)]
  refine ⟨o, enc', encodeAll_single henc, hput, ?_⟩
  rw [List.length_append]
  omega

lemma responseBlock_cases (L : Lockstep enc dec es) (hbody : bodyLen < 2 ^ 32) (status : Nat) (hdrs : List Hpack.Field) :
    (HeaderWraps enc status hdrs bodyLen ∧ responseBlock enc status hdrs bodyLen = .fault) ∨
    (¬ HeaderWraps enc status hdrs bodyLen ∧ ¬ HeadersPass enc status hdrs bodyLen ∧
      responseBlock enc status hdrs bodyLen = .error) ∨
    (¬ HeaderWraps enc status hdrs bodyLen ∧ HeadersPass enc status hdrs bodyLen ∧
      ∃ block enc', responseBlock enc status hdrs bodyLen = .ok (block, enc') ∧ block.length ≤ kHblockSize ∧
        enc.encodeBlock (responseHeaders status hdrs bodyLen) = .ok (block, enc') ∧
        ∀ f ∈ responseHeaders status hdrs bodyLen, Moderate f) := by
  have hblock : kHblockSize = 8192 := rfl
  have hover : kHpackFieldOverhead = 11 := rfl
  have hemit := L.length_emit_le
  have hreserve : clReserve bodyLen ≤ 35 := by
    unfold clReserve
    split <;> omega
  have hstatus : statusName.length + (statusText status).length = 10 := rfl
  obtain ⟨o, enc₁, es₁, henc, hput, H₁, hlen⟩ :=
    putField_ok (f := (statusName, statusText status)) L.emit_encoder enc.emitPendingSizeUpdate.1 (by dsimp only; omega)
  dsimp only at hlen
  have hput' : putField statusName (statusText status) enc.emitPendingSizeUpdate =
      .ok (enc.emitPendingSizeUpdate.1 ++ o, enc₁) := hput
  have hroom : (enc.emitPendingSizeUpdate.1 ++ o).length + clReserve bodyLen ≤ kHblockSize := by
    rw [List.length_append]
    omega
  have hwraps : HeaderWraps enc status hdrs bodyLen ↔
      SumWraps (clReserve bodyLen) hdrs (enc.emitPendingSizeUpdate.1 ++ o, enc₁) := by
    constructor
    · rintro ⟨s, hs, h⟩
      cases hput'.symm.trans hs
      exact h
    · exact fun h => ⟨_, hput', h⟩
  have hpass : HeadersPass enc status hdrs bodyLen ↔
      PassesAll (clReserve bodyLen) hdrs (enc.emitPendingSizeUpdate.1 ++ o, enc₁) := by
    constructor
    · exact fun h => h _ hput'
    · intro h s hs
      cases hput'.symm.trans hs
      exact h
  rw [responseBlock, hput', hwraps, hpass]
  simp only [Outcome.bind]
  by_cases hw : SumWraps (clReserve bodyLen) hdrs (enc.emitPendingSizeUpdate.1 ++ o, enc₁)
  · refine .inl ⟨hw, ?_⟩
    rw [responseFields_wraps H₁ hroom hw]
  obtain ⟨hnot, herror⟩ | ⟨hall, os, enc₂, es₂, hencs, hok, H₂, hroom₂, hmod⟩ := responseFields_plain H₁ hroom hw
  · refine .inr (.inl ⟨hw, hnot, ?_⟩)
    rw [herror]
  · obtain ⟨os', enc₃, hlast, hcl, hsize⟩ :=
      putContentLength_ok (s := (enc.emitPendingSizeUpdate.1 ++ o ++ os, enc₂)) H₂ hbody hroom₂
    refine .inr (.inr ⟨hw, hall, _, enc₃, ?_, hsize, ?_, ?_⟩)
    · rw [hok]
      exact hcl
    · rw [Encoder.encodeBlock, responseHeaders, List.append_assoc,
        encodeAll_append (encodeAll_single henc) (encodeAll_append hencs hlast)]
      simp only [Outcome.bind, List.append_assoc]
    · rw [responseHeaders]
      intro f hf
      rw [List.mem_append, List.mem_append, List.mem_singleton] at hf
      rcases hf with (rfl | hf) | hf
      · exact show statusName.length + (statusText status).length ≤ 8192 by omega
      · exact hmod f hf
      · split at hf
        · exact absurd hf List.not_mem_nil
        · rw [List.mem_singleton.mp hf]
          have hdec := (length_u32ToDec hbody).2
          have hname : contentLengthField.length = 14 := rfl
          exact show contentLengthField.length + (u32ToDec bodyLen).length ≤ 8192 by omega

end block

/-! ## The frames -/

/-- The octets are a HEADERS frame with a whole header block and, if there is a body, a DATA frame that carries it and
ends the stream. -/
structure ResponseFrames (out : Str) (streamId : Nat) (block body : Str) : Prop where
  headers : parseFrameHeader out =
    some ⟨block.length, .headers, kEndHeaders ||| (if body = [] then kEndStream else 0), streamId % 2 ^ 31⟩
  payload : (out.drop kFrameHeaderSize).take block.length = block
  last : body = [] → out.length = kFrameHeaderSize + block.length
  data : body ≠ [] →
    parseFrameHeader (out.drop (kFrameHeaderSize + block.length)) =
      some ⟨body.length, .data, kEndStream, streamId % 2 ^ 31⟩ ∧
    out.drop (kFrameHeaderSize + block.length + kFrameHeaderSize) = body

def responseOctets (streamId : Nat) (block body : Str) : Str :=
  FrameHeader.bytes ⟨block.length, .headers, kEndHeaders ||| (if body.length = 0 then kEndStream else 0), streamId⟩ ++
    block ++ (if 0 < body.length then http2WriteData streamId body true else [])

section frames

variable {streamId : Nat} {block body : Str}

lemma drop_response : (responseOctets streamId block body).drop (kFrameHeaderSize + block.length) =
    if 0 < body.length then http2WriteData streamId body true else [] := by
  apply List.drop_left'
  rw [List.length_append, length_frameHeader]

lemma parse_response (hblock : block.length ≤ kHblockSize) : parseFrameHeader (responseOctets streamId block body) =
    some ⟨block.length, .headers, kEndHeaders ||| (if body = [] then kEndStream else 0), streamId % 2 ^ 31⟩ := by
  have hlen : block.length % 2 ^ 24 = block.length := by
    have : kHblockSize = 8192 := rfl
    exact Nat.mod_eq_of_lt (by omega)
  rw [responseOctets, List.append_assoc, parseFrameHeader_bytes]
  dsimp only
  rw [hlen]
  cases body with
  | nil => rfl
  | cons b body =>
    rw [if_neg (List.cons_ne_nil b body), List.length_cons, if_neg (Nat.succ_ne_zero _)]
    rfl

lemma parse_data (hbody : body ≠ []) :
    parseFrameHeader ((responseOctets streamId block body).drop (kFrameHeaderSize + block.length)) =
      some ⟨body.length % 2 ^ 24, .data, kEndStream, streamId % 2 ^ 31⟩ := by
  rw [drop_response, if_pos (List.length_pos_of_ne_nil hbody), http2WriteData, parseFrameHeader_bytes]
  rfl

lemma frames_response (hblock : block.length ≤ kHblockSize) (hbody : body.length < 2 ^ 24) :
    ResponseFrames (responseOctets streamId block body) streamId block body where
  headers := parse_response hblock
  payload := by
    rw [responseOctets, List.append_assoc, List.drop_left' (length_frameHeader _), List.take_left]
  last := by
    rintro rfl
    rw [responseOctets, List.length_append, List.length_append, length_frameHeader]
    rfl
  data := by
    intro hne
    refine ⟨by rw [parse_data hne, Nat.mod_eq_of_lt hbody], ?_⟩
    rw [← List.drop_drop, drop_response, if_pos (List.length_pos_of_ne_nil hne), http2WriteData,
      List.drop_left' (length_frameHeader _)]

end frames

/-- What a call of `http2_write_response` promises, with a decoder in lockstep with the encoder. -/
structure ResponseSound (outCap : Nat) (enc : Encoder) (dec : DynamicTable) (streamId status : Nat)
    (hdrs : List Hpack.Field) (body : Str) : Prop where
  within : http2WriteResponse outCap enc streamId status hdrs body ≠ .fault
  refused : ∀ enc', http2WriteResponse outCap enc streamId status hdrs body = .ok ([], enc') → enc' = enc
  written : ∀ out enc', http2WriteResponse outCap enc streamId status hdrs body = .ok (out, enc') → out ≠ [] →
    out.length ≤ outCap ∧ ∃ block, block.length ≤ kHblockSize ∧ ResponseFrames out streamId block body ∧
      ∀ c : BlockCaps, c.outCap < 2 ^ 32 → octets (responseHeaders status hdrs body.length) ≤ c.outCap →
        (responseHeaders status hdrs body.length).length ≤ c.maxHeaders →
        ∃ st, decodeHeaderBlock c dec block = .ok st ∧
          st.headers.map Header.shown = responseHeaders status hdrs body.length

section response

variable {outCap streamId status : Nat} {enc enc' : Encoder} {dec : DynamicTable} {es : List Hpack.Field}
  {hdrs : List Hpack.Field} {block body : Str}

lemma sound_of_error (h : http2WriteResponseImpl outCap enc streamId status hdrs body = .error) :
    ResponseSound outCap enc dec streamId status hdrs body := by
  have hzero : http2WriteResponse outCap enc streamId status hdrs body = .ok ([], enc) := by
    rw [http2WriteResponse, h]
  refine ⟨by rw [hzero]; nofun, fun enc' h' => ?_, fun out enc' h' hne => ?_⟩
  · cases hzero.symm.trans h'
    rfl
  · cases hzero.symm.trans h'
    exact absurd rfl hne

def responseNeed (block body : Str) : Nat :=
  kFrameHeaderSize + block.length + if 0 < body.length then kFrameHeaderSize + body.length else 0

lemma impl_of_block (outCap streamId : Nat) (h : responseBlock enc status hdrs body.length = .ok (block, enc')) :
    http2WriteResponseImpl outCap enc streamId status hdrs body =
      if outCap < responseNeed block body % 2 ^ 32 then .error else if outCap < responseNeed block body then .fault
      else .ok (responseOctets streamId block body, enc') := by
  rw [http2WriteResponseImpl, h]
  rfl

lemma length_response : (responseOctets streamId block body).length = responseNeed block body := by
  rw [responseOctets, List.length_append, List.length_append, length_frameHeader, responseNeed]
  split
  · rw [http2WriteData, List.length_append, length_frameHeader]
  · rfl

lemma sound_of_block (L : Lockstep enc dec es) (hok : responseBlock enc status hdrs body.length = .ok (block, enc'))
    (hblock : block.length ≤ kHblockSize) (henc : enc.encodeBlock (responseHeaders status hdrs body.length) = .ok (block, enc'))
    (hmod : ∀ f ∈ responseHeaders status hdrs body.length, Moderate f) (hbody : body.length < 2 ^ 24) :
    ResponseSound outCap enc dec streamId status hdrs body := by
  have himpl := impl_of_block outCap streamId hok
  have hsize : kHblockSize = 8192 := rfl
  have hneed : responseNeed block body % 2 ^ 32 = responseNeed block body := by
    apply Nat.mod_eq_of_lt
    have hnine : kFrameHeaderSize = 9 := rfl
    rw [responseNeed]
    split <;> omega
  rw [hneed] at himpl
  by_cases hcap : outCap < responseNeed block body
  · rw [if_pos hcap] at himpl
    exact sound_of_error himpl
  rw [if_neg hcap, if_neg hcap] at himpl
  have hwrite : http2WriteResponse outCap enc streamId status hdrs body =
      .ok (responseOctets streamId block body, enc') := by
    rw [http2WriteResponse, himpl]
  refine ⟨by rw [hwrite]; nofun, fun enc'' h => ?_, fun out enc'' h hne => ?_⟩
  · cases hwrite.symm.trans h
  · cases hwrite.symm.trans h
    refine ⟨by rw [length_response]; exact Nat.not_lt.mp hcap, block, hblock, frames_response hblock hbody, ?_⟩
    intro c hout hoctets hcount
    obtain ⟨st, -, hdec, hshown, -⟩ :=
      L.block (fun f hf => (hmod f hf).sendable) henc (by omega) hout hoctets hcount
    exact ⟨st, hdec, hshown⟩

lemma unsound_of_block (hok : responseBlock enc status hdrs body.length = .ok (block, enc'))
    (hblock : block.length ≤ kHblockSize) (hbody : 2 ^ 24 ≤ body.length)
    (hcap : responseNeed block body % 2 ^ 32 ≤ outCap) : ¬ ResponseSound outCap enc dec streamId status hdrs body := by
  rintro ⟨hwithin, -, hwritten⟩
  have himpl := impl_of_block outCap streamId hok
  rw [if_neg (Nat.not_lt.mpr hcap)] at himpl
  by_cases hfault : outCap < responseNeed block body
  · rw [if_pos hfault] at himpl
    exact hwithin (by rw [http2WriteResponse, himpl])
  rw [if_neg hfault] at himpl
  obtain ⟨-, block', -, F, -⟩ := hwritten _ _ (by rw [http2WriteResponse, himpl]) (by nofun)
  have hlen : block'.length = block.length := by
    have h := F.headers.symm.trans (parse_response hblock)
    exact congrArg FrameHeader.length (Option.some.inj h)
  have hne : body ≠ [] := by
    rintro rfl
    exact absurd hbody (by decide)
  have hdata := (F.data hne).1
  rw [hlen, parse_data hne] at hdata
  have hmod : body.length % 2 ^ 24 = body.length := congrArg FrameHeader.length (Option.some.inj hdata)
  omega

end response

lemma not_headerWraps_nil (enc : Encoder) (status bodyLen : Nat) : ¬ HeaderWraps enc status [] bodyLen := by
  rintro ⟨s, -, h⟩
  exact h

end Rut.Http2
