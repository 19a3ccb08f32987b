import Rut.Hpack.Sizes
import Rut.Hpack.TableInv
import Rut.Hpack.Bounds

/-!
# Encoder and decoder in lockstep

An `Encoder` and the table of `decode_header_block` that hold the same fields hold the same fields after every block. A
block is decoded as it was encoded: an index means the same field on both sides, literals are read back, and both tables
add the same fields and drop the same ones to make room.
-/

set_option linter.all false
namespace Rut.Hpack

open Lib BoundedQueue

/-! ## Integers and strings -/

lemma encodeInteger_head (v bits top : Nat) (hflags : top % 2 ^ bits = 0) (htop : top + 2 ^ bits ≤ 256) :
    ∃ b tail, encodeInteger v bits top = b :: tail ∧ top ≤ b.toNat ∧ b.toNat < top + 2 ^ bits := by
  have hoctet {x : Nat} (hx : x < 2 ^ bits) : (UInt8.ofNat (top ||| x)).toNat = top + x := by
    obtain ⟨k, rfl⟩ := Nat.dvd_of_mod_eq_zero hflags
    rw [← Nat.two_pow_add_eq_or_of_lt hx, UInt8.toNat_ofNat', Nat.mod_eq_of_lt]
    omega
  rw [encodeInteger]
  by_cases hsmall : v < 2 ^ bits - 1
  · simp only [if_pos hsmall]
    have hv := hoctet (x := v) (by omega)
    exact ⟨_, [], rfl, by omega, by omega⟩
  · simp only [if_neg hsmall]
    have hv := hoctet (x := 2 ^ bits - 1) (by omega)
    exact ⟨_, _, rfl, by omega, by omega⟩

lemma decodeInteger_encode {v} (bits top : Nat) (hbits : bits ≤ 8) (htop : top < 256)
    (hflags : top % 2 ^ bits = 0) (hv : v < 2 ^ 32) (rest : Str) :
    decodeInteger bits (encodeInteger v bits top ++ rest) = some (v, (encodeInteger v bits top).length) := by
  obtain ⟨htext, hlen⟩ := encodeInteger_text hbits htop hflags hv rest
  rw [decodeInteger_text hbits htext, if_pos ⟨hlen, hv⟩]

/-- Strings that `decode_string` can read back: `huffman_decode` reports a length as an `i32`. -/
def Codable (s : Str) : Prop := s.length < 2 ^ 32 ∧ (huffmanEncodedLen s < s.length → s.length < 2 ^ 31)

lemma huffmanDecode_append (cap : Nat) (s rest : Str) :
    huffmanDecode cap (s ++ rest) s.length = huffmanDecode cap s s.length := by
  rw [huffmanDecode, huffmanDecode, huffmanDecodeWith, huffmanDecodeWith,
    huffmanLoop_take _ _ _ (s ++ rest) _ _ (by rw [List.length_append]; omega), List.take_left]

lemma huffmanDecode_encode {cap s} (hcap : s.length ≤ cap) (hs : s.length < 2 ^ 31) :
    huffmanDecode cap (huffmanEncode s) (huffmanEncode s).length = .ok s := by
  obtain ⟨pad, hpad, hbits⟩ := huffmanEncode_bits s
  rw [← codeWords_eq] at hbits
  exact (huffmanDecode_iff cap _ s).mpr ⟨⟨pad, hpad, hbits⟩, hcap, hs⟩

lemma decodeString_body (top : Nat) {cap body rest s} (htop : top = 0 ∨ top = 0x80)
    (hlen : (encodeInteger body.length 7 top ++ (body ++ rest)).length < 2 ^ 32)
    (hbody : if top = 0 then body.length ≤ cap ∧ s = body else huffmanDecode cap body body.length = .ok s) :
    decodeString (encodeInteger body.length 7 top ++ (body ++ rest)) cap =
      .ok (s, (encodeInteger body.length 7 top ++ body).length) := by
  simp only [List.length_append] at hlen
  have hflags : top % 2 ^ 7 = 0 := by rcases htop with rfl | rfl <;> rfl
  have htop' : top < 256 := by omega
  obtain ⟨b, tail, hhead, hge, hlt⟩ := encodeInteger_head body.length 7 top hflags (by omega)
  have hint := decodeInteger_encode 7 top (by decide) htop' hflags (show body.length < 2 ^ 32 by omega) (body ++ rest)
  have hfirst : (encodeInteger body.length 7 top ++ (body ++ rest)).head? = some b := by
    rw [hhead]
    rfl
  have hstop : ((encodeInteger body.length 7 top).length + body.length) % 2 ^ 32 =
      (encodeInteger body.length 7 top ++ body).length := by
    rw [Nat.mod_eq_of_lt (by omega), List.length_append]
  rw [decodeString, hfirst, hint]
  dsimp only
  rw [hstop, List.drop_left, if_neg (by simp only [List.length_append]; omega)]
  rcases htop with rfl | rfl
  · have hraw : b.toNat &&& 0x80 = 0 := (and_top b).mpr hlt
    rw [if_neg (not_not.mpr hraw), if_neg (Nat.not_lt.mpr hbody.1), readOctets,
      if_pos (by rw [List.length_append]; omega), List.take_left, hbody.2]
    rfl
  · have hhuff : b.toNat &&& 0x80 ≠ 0 := fun h => absurd ((and_top b).mp h) (by omega)
    rw [if_pos hhuff, huffmanDecode_append, hbody]
    rfl

lemma decodeString_encode {cap s} (rest : Str) (hs : Codable s) (hcap : s.length ≤ cap)
    (hlen : (encodeString s ++ rest).length < 2 ^ 32) :
    decodeString (encodeString s ++ rest) cap = .ok (s, (encodeString s).length) := by
  unfold encodeString at hlen ⊢
  by_cases hhuff : huffmanEncodedLen s < s.length
  · simp only [if_pos hhuff, List.append_assoc] at hlen ⊢
    have hlen' : huffmanEncodedLen s = (huffmanEncode s).length := by
      rw [length_huffmanEncode]
      apply Nat.mod_eq_of_lt
      rw [← huffmanSize, ← length_huffmanEncode]
      simp only [List.length_append] at hlen
      omega
    rw [hlen'] at hlen ⊢
    apply decodeString_body 0x80 (.inr rfl) hlen
    exact huffmanDecode_encode hcap (hs.2 hhuff)
  · simp only [if_neg hhuff, List.append_assoc] at hlen ⊢
    exact decodeString_body 0 (.inl rfl) hlen ⟨hcap, rfl⟩

/-! ## The tables -/

section tables

variable {d : DynamicTable} {es : List Field}

lemma map_entry_layout (pre tail : Str) (h : d.buf = pre ++ packed es ++ tail) :
    (layout pre.length es).map d.entry = es := by
  induction es generalizing pre with
  | nil => rfl
  | cons e es ih =>
    have hbuf : d.buf = pre ++ (e.1 ++ (e.2 ++ (packed es ++ tail))) := by
      rw [h, packed_cons, Field.bytes]
      simp only [List.append_assoc]
    have hentry : d.entry ⟨pre.length, e.1.length, e.2.length⟩ = e := by
      rw [DynamicTable.entry, hbuf, ← List.drop_drop]
      simp only [List.drop_left, List.take_left]
    have hrest := ih (pre ++ e.bytes) (by rw [h, packed_cons]; simp only [List.append_assoc])
    rw [List.length_append] at hrest
    rw [layout, List.map_cons, hentry, hrest]

lemma Rep.entries (R : Rep d es) : d.ents.map d.entry = es := by
  rw [R.ents]
  apply map_entry_layout [] (d.buf.drop d.byteUsed)
  rw [List.nil_append, ← R.bytes, List.take_append_drop]

def indexed (es : List Field) : List Field := kStatic ++ es.reverse

lemma Rep.dynFind (R : Rep d es) (p : Field → Bool) :
    dynFind d p = (es.reverse.findIdx? p).elim 0 (kStaticCount + 1 + ·) := by
  have hfind : d.ents.reverse.findIdx? (fun e => p (d.entry e)) = es.reverse.findIdx? p := by
    rw [← R.entries, ← List.map_reverse, List.findIdx?_map]
    rfl
  rw [Hpack.dynFind, hfind]
  cases es.reverse.findIdx? p <;> rfl

lemma Rep.dynFind_get (R : Rep d es) {p : Field → Bool} (h : 0 < Hpack.dynFind d p) :
    ∃ e, (indexed es)[Hpack.dynFind d p - 1]? = some e ∧ p e = true ∧ Hpack.dynFind d p ≤ kStaticCount + es.length := by
  rw [R.dynFind] at h ⊢
  cases hfind : es.reverse.findIdx? p with
  | none =>
    rw [hfind] at h
    exact absurd h (Nat.lt_irrefl 0)
  | some j =>
    obtain ⟨hj, hp, -⟩ := List.findIdx?_eq_some_iff_getElem.mp hfind
    rw [Option.elim_some]
    refine ⟨es.reverse[j], ?_, hp, ?_⟩
    · have hidx : kStaticCount + 1 + j - 1 = kStatic.length + j := by
        rw [kStaticCount]
        omega
      rw [indexed, hidx, List.getElem?_append_right (Nat.le_add_right _ _), Nat.add_sub_cancel_left, List.getElem?_eq_getElem hj]
    · rw [List.length_reverse] at hj
      omega

lemma findIndex_get {p : Field → Bool} (es : List Field) (h : 0 < findIndex p kStatic) :
    ∃ e, (indexed es)[findIndex p kStatic - 1]? = some e ∧ p e = true := by
  rw [findIndex] at h ⊢
  cases hfind : kStatic.findIdx? p with
  | none =>
    rw [hfind] at h
    exact absurd h (Nat.lt_irrefl 0)
  | some i =>
    obtain ⟨hi, hp, -⟩ := List.findIdx?_eq_some_iff_getElem.mp hfind
    refine ⟨kStatic[i], ?_, hp⟩
    rw [indexed]
    rw [Nat.add_sub_cancel, List.getElem?_append_left hi, List.getElem?_eq_getElem hi]

lemma Rep.resolveFull (R : Rep d es) {idx : Nat} {e} (hpos : 0 < idx) (h : (indexed es)[idx - 1]? = some e)
    (out : Str) :
    ∃ name value, Hpack.resolveFull d idx = some (name, value) ∧ (name.read out d, value.read out d) = e := by
  rw [Hpack.resolveFull, if_neg (by omega)]
  by_cases hstatic : idx ≤ kStaticCount
  · rw [if_pos hstatic]
    rw [indexed, List.getElem?_append_left (by rw [kStaticCount] at hstatic; omega)] at h
    rw [h]
    exact ⟨.const e.1, .const e.2, rfl, rfl⟩
  · rw [if_neg hstatic]
    have hidx : idx - 1 - kStatic.length = idx - kStaticCount - 1 := by
      rw [kStaticCount]
      omega
    rw [indexed, List.getElem?_append_right (by rw [kStaticCount] at hstatic; omega), hidx, ← R.entries,
      ← List.map_reverse, List.getElem?_map] at h
    rw [dynGet]
    cases hent : d.ents.reverse[idx - kStaticCount - 1]? with
    | none =>
      rw [hent] at h
      cases h
    | some x =>
      rw [hent] at h
      cases h
      exact ⟨_, _, rfl, rfl⟩

end tables

/-! ## Decoding a field -/

section block

variable {c : BlockCaps} {src rest : Str} {st st' : BlockState} {es : List Field} {f : Field}

structure Decoded (st st' : BlockState) (n : Nat) (f : Field) : Prop where
  pos : st'.pos = st.pos + n
  out : st'.out.length ≤ st.out.length + (f.1.length + f.2.length)
  headers : ∃ h, st'.headers = st.headers ++ [h] ∧ h.shown = f

lemma octet_class (b : UInt8) : (b.toNat &&& 0x80 ≠ 0 ↔ 128 ≤ b.toNat) ∧
    (b.toNat < 128 → (b.toNat &&& 0x40 ≠ 0 ↔ 64 ≤ b.toNat)) ∧ (b.toNat < 64 → (b.toNat &&& 0x20 ≠ 0 ↔ 32 ≤ b.toNat)) := by
  revert b
  apply forall_uint8
  decide +kernel

lemma blockStep_ok {b} {tail : Str} (h : src.drop st.pos = b :: tail) (hok : blockField c src st b = .ok st') :
    blockStep c src st = .inl st' := by
  have hb : src[st.pos]? = some b := by rw [← List.head?_drop, h, List.head?_cons]
  rw [blockStep, hb]
  dsimp only
  rw [hok]

lemma push_ok (st : BlockState) {name value : View} (hcount : st.headers.length < c.maxHeaders) : st.push c name value =
    .ok { st with headers := st.headers ++ [⟨name, value, name.read st.out st.dyn, value.read st.out st.dyn⟩] } :=
  if_neg (Nat.not_le.mpr hcount)

lemma blockStep_indexed {idx} (R : Rep st.dyn es) (hpos : 0 < idx) (hidx : (indexed es)[idx - 1]? = some f)
    (hlt : idx < 2 ^ 32) (hdrop : src.drop st.pos = encodeInteger idx 7 0x80 ++ rest)
    (hcount : st.headers.length < c.maxHeaders) :
    ∃ st', blockStep c src st = .inl st' ∧ Decoded st st' (encodeInteger idx 7 0x80).length f ∧ st'.dyn = st.dyn := by
  obtain ⟨b, tail, hhead, hge, -⟩ := encodeInteger_head idx 7 0x80 rfl (by decide)
  obtain ⟨name, value, hresolve, hread⟩ := R.resolveFull hpos hidx st.out
  have hint := decodeInteger_encode 7 0x80 (by decide) (by decide) rfl hlt rest
  let n := (encodeInteger idx 7 0x80).length
  let h : Header := ⟨name, value, name.read st.out st.dyn, value.read st.out st.dyn⟩
  refine ⟨{ st with pos := st.pos + n, headers := st.headers ++ [h] }, blockStep_ok (b := b) (by rw [hdrop, hhead]; rfl) ?_,
    ⟨rfl, Nat.le_add_right _ _, h, rfl, hread⟩, rfl⟩
  rw [blockField, if_pos ((octet_class b).1.mpr hge), indexedField, hdrop, hint]
  dsimp only
  rw [hresolve]
  exact push_ok { st with pos := st.pos + n } hcount

lemma literalString_ok {s} (hs : Codable s) (hsrc : src.length < 2 ^ 32)
    (hdrop : src.drop st.pos = encodeString s ++ rest) (hcap : st.out.length + s.length ≤ c.outCap) :
    literalString c src st = .ok (.out st.out.length s.length,
      { st with pos := st.pos + (encodeString s).length, out := st.out ++ s }) := by
  have hlen : (encodeString s ++ rest).length < 2 ^ 32 := by
    rw [← hdrop, List.length_drop]
    omega
  rw [literalString, hdrop, decodeString_encode rest hs (by omega) hlen]
  rfl

lemma read_out (a s b : Str) (d : DynamicTable) : (View.out a.length s.length).read (a ++ s ++ b) d = s := by
  rw [View.read, List.append_assoc, List.drop_left, List.take_left]

lemma read_out_end (a s : Str) (d : DynamicTable) : (View.out a.length s.length).read (a ++ s) d = s := by
  rw [← List.append_nil (a ++ s), read_out]

lemma addField_push (st : BlockState) {dyn} (name value : View) (hname : ∀ d, name.read st.out d = f.1)
    (hvalue : ∀ d, value.read st.out d = f.2) (hadd : st.dyn.add f.1 f.2 = .ok dyn)
    (hcount : st.headers.length < c.maxHeaders) : ((addField st name value).bind fun st => st.push c name value) =
      .ok { st with dyn, headers := st.headers ++ [⟨name, value, f⟩] } := by
  rw [addField, hname, hvalue, hadd]
  refine (push_ok { st with dyn } hcount).trans ?_
  rw [hname, hvalue]

lemma blockStep_literal {nidx dyn} (R : Rep st.dyn es)
    (hname : 0 < nidx → ∃ e, (indexed es)[nidx - 1]? = some e ∧ e.1 = f.1) (hlt : nidx < 2 ^ 32) (hs : Codable f.1)
    (hv : Codable f.2) (hsrc : src.length < 2 ^ 32) (hout : c.outCap < 2 ^ 32)
    (hdrop : src.drop st.pos = encodeInteger nidx 6 0x40 ++ (if nidx = 0 then encodeString f.1 else []) ++
      encodeString f.2 ++ rest)
    (hcap : st.out.length + (f.1.length + f.2.length) ≤ c.outCap) (hcount : st.headers.length < c.maxHeaders)
    (hadd : st.dyn.add f.1 f.2 = .ok dyn) : ∃ st', blockStep c src st = .inl st' ∧
      Decoded st st' (encodeInteger nidx 6 0x40 ++ (if nidx = 0 then encodeString f.1 else []) ++ encodeString f.2).length
        f ∧ st'.dyn = dyn := by
  obtain ⟨b, tail, hhead, hge, hb⟩ := encodeInteger_head nidx 6 0x40 rfl (by decide)
  have hclass : b.toNat &&& 0x80 = 0 ∧ b.toNat &&& 0x40 ≠ 0 :=
    ⟨by_contra fun h => absurd ((octet_class b).1.mp h) (by omega), ((octet_class b).2.1 (by omega)).mpr hge⟩
  have hint := decodeInteger_encode 6 0x40 (by decide) (by decide) rfl hlt
    ((if nidx = 0 then encodeString f.1 else []) ++ (encodeString f.2 ++ rest))
  simp only [List.append_assoc] at hdrop
  rw [← hdrop] at hint
  have hliteral : blockField c src st b = literalField c src st true := by
    rw [blockField, if_neg (not_not.mpr hclass.1), if_neg (fun h => hclass.2 h.2), decide_eq_true hclass.2]
  have hstep {st' : BlockState} (h : literalField c src st true = .ok st') : blockStep c src st = .inl st' :=
    blockStep_ok (b := b) (by rw [hdrop, hhead]; rfl) (hliteral.trans h)
  by_cases hnew : nidx = 0
  · -- a name that is spelled out stays in the output in front of the value
    subst hnew
    rw [if_pos rfl] at hdrop ⊢
    let st₁ : BlockState := { st with pos := st.pos + (encodeInteger 0 6 0x40).length }
    let st₂ : BlockState := { st₁ with pos := st₁.pos + (encodeString f.1).length, out := st.out ++ f.1 }
    let st₃ : BlockState := { st₂ with pos := st₂.pos + (encodeString f.2).length, out := st.out ++ f.1 ++ f.2 }
    have hdrop₁ : src.drop st₁.pos = encodeString f.1 ++ (encodeString f.2 ++ rest) := by
      rw [← List.drop_drop, hdrop, List.drop_left]
    have hdrop₂ : src.drop st₂.pos = encodeString f.2 ++ rest := by
      rw [← List.drop_drop, hdrop₁, List.drop_left]
    have hread₁ : literalName c src st₁ 0 = .ok (.out st.out.length f.1.length, st₂) :=
      literalString_ok hs hsrc hdrop₁ (show st.out.length + _ ≤ _ by omega)
    have hread₂ : literalString c src st₂ = .ok (.out (st.out ++ f.1).length f.2.length, st₃) := by
      apply literalString_ok hv hsrc hdrop₂
      show (st.out ++ f.1).length + f.2.length ≤ c.outCap
      rw [List.length_append]
      omega
    let name : View := .out st.out.length f.1.length
    let value : View := .out (st.out ++ f.1).length f.2.length
    have hpush := addField_push st₃ name value (fun d => read_out _ _ _ d) (fun d => read_out_end _ _ d) hadd hcount
    refine ⟨{ st₃ with dyn, headers := st.headers ++ [⟨name, value, f⟩] }, hstep ?_, ⟨?_, ?_, _, rfl, rfl⟩, rfl⟩
    · rw [literalField, if_pos rfl, hint]
      dsimp only
      rw [hread₁]
      simp only [Outcome.bind]
      rw [hread₂]
      exact hpush
    · simp only [st₃, st₂, st₁, List.length_append]
      omega
    · simp only [st₃, List.length_append]
      omega
  · -- a name of the tables is copied behind the value
    rw [if_neg hnew] at hdrop ⊢
    let st₁ : BlockState := { st with pos := st.pos + (encodeInteger nidx 6 0x40).length }
    let st₂ : BlockState := { st₁ with pos := st₁.pos + (encodeString f.2).length, out := st.out ++ f.2 }
    let st₃ : BlockState := { st₂ with out := st.out ++ f.2 ++ f.1 }
    have hdrop₁ : src.drop st₁.pos = encodeString f.2 ++ rest := by
      rw [← List.drop_drop, hdrop, List.drop_left, List.nil_append]
    obtain ⟨e, hget, hfst⟩ := hname (by omega)
    obtain ⟨view, _, hresolve, hview⟩ := R.resolveFull (by omega) hget (st.out ++ f.2)
    have hshown : view.read (st.out ++ f.2) st.dyn = f.1 := (congrArg Prod.fst hview).trans hfst
    have hread₁ : literalName c src st₁ nidx = .ok (view, st₁) := by
      rw [literalName, if_neg hnew, resolveName, hresolve]
      rfl
    have hread₂ : literalString c src st₁ = .ok (.out st.out.length f.2.length, st₂) :=
      literalString_ok hv hsrc hdrop₁ (show st.out.length + _ ≤ _ by omega)
    have hcopy : copyName c st₂ nidx view = .ok (.out (st.out ++ f.2).length f.1.length, st₃) := by
      have hstop : (st.out ++ f.2).length + f.1.length ≤ c.outCap := by
        rw [List.length_append]
        omega
      rw [copyName, if_neg hnew]
      simp only [st₂, st₁, hshown]
      rw [Nat.mod_eq_of_lt (by omega), if_neg (Nat.not_lt.mpr hstop), if_neg (Nat.not_lt.mpr hstop)]
    let name : View := .out (st.out ++ f.2).length f.1.length
    let value : View := .out st.out.length f.2.length
    have hpush := addField_push st₃ name value (fun d => read_out_end _ _ d) (fun d => read_out _ _ _ d) hadd hcount
    refine ⟨{ st₃ with dyn, headers := st.headers ++ [⟨name, value, f⟩] }, hstep ?_, ⟨?_, ?_, _, rfl, rfl⟩, rfl⟩
    · rw [literalField, if_pos rfl, hint]
      dsimp only
      rw [hread₁]
      simp only [Outcome.bind]
      rw [hread₂]
      simp only [if_true]
      rw [hcopy]
      exact hpush
    · simp only [st₃, st₂, st₁, List.append_nil, List.length_append]
      omega
    · simp only [st₃, List.length_append]
      omega

end block

/-! ## A field on both sides -/

structure Sendable (f : Field) : Prop where
  name : Codable f.1
  value : Codable f.2
  size : f.size < 2 ^ 32

structure Synced (e : Encoder) (d : DynamicTable) (es : List Field) : Prop where
  encoder : Holds e.dyn es
  decoder : Holds d es
  limit : e.dyn.maxSize = d.maxSize

section step

variable {c : BlockCaps} {src rest : Str} {st : BlockState} {es : List Field} {f : Field} {e : Encoder}

lemma encode_cases (H : Holds e.dyn es) (hf : f.size < 2 ^ 32) :
    (∃ idx, e.encode f.1 f.2 = .ok (encodeInteger idx 7 0x80, e) ∧ 0 < idx ∧ idx < 2 ^ 32 ∧
      (indexed es)[idx - 1]? = some f) ∨ ∃ nidx dyn, e.encode f.1 f.2 =
        .ok (encodeInteger nidx 6 0x40 ++ (if nidx = 0 then encodeString f.1 else []) ++ encodeString f.2, { e with dyn }) ∧
      nidx < 2 ^ 32 ∧ (0 < nidx → ∃ g, (indexed es)[nidx - 1]? = some g ∧ g.1 = f.1) ∧
      e.dyn.add f.1 f.2 = .ok dyn ∧ Holds dyn (push Field.size e.dyn.maxSize es f) ∧ dyn.maxSize = e.dyn.maxSize := by
  have hlen : es.length ≤ 128 := H.length_le
  have hstatic : kStaticCount = 61 := rfl
  rw [Encoder.encode]
  by_cases hdyn : 0 < dynFindFull e.dyn f.1 f.2
  · obtain ⟨g, hget, hg, hle⟩ := H.toRep.dynFind_get hdyn
    obtain rfl := beq_iff_eq.mp hg
    rw [if_pos hdyn]
    exact .inl ⟨_, rfl, hdyn, by unfold dynFindFull; omega, hget⟩
  rw [if_neg hdyn]
  by_cases hfull : 0 < staticFindFull f.1 f.2
  · obtain ⟨g, hget, hg⟩ := findIndex_get es hfull
    obtain rfl := beq_iff_eq.mp hg
    rw [if_pos hfull]
    have hle : staticFindFull f.1 f.2 ≤ 61 := findIndex_le _ kStatic
    exact .inl ⟨_, rfl, hfull, by omega, hget⟩
  rw [if_neg hfull]
  obtain ⟨dyn, hadd, H', hmax, -⟩ := H.add f hf
  rw [hadd]
  refine .inr ⟨_, dyn, rfl, ?_, fun hpos => ?_, rfl, H', hmax⟩
  · have hname : staticFindName f.1 ≤ 61 := findIndex_le _ kStatic
    split
    · by_cases hpos : 0 < dynFindName e.dyn f.1
      · obtain ⟨-, -, -, hle⟩ := H.toRep.dynFind_get hpos
        unfold dynFindName
        omega
      · omega
    · omega
  · by_cases hzero : staticFindName f.1 = 0
    · rw [if_pos hzero] at hpos ⊢
      obtain ⟨g, hget, hg, -⟩ := H.toRep.dynFind_get hpos
      exact ⟨g, hget, beq_iff_eq.mp hg⟩
    · rw [if_neg hzero] at hpos ⊢
      obtain ⟨g, hget, hg⟩ := findIndex_get es hpos
      exact ⟨g, hget, beq_iff_eq.mp hg⟩

lemma Synced.field {e' o} (S : Synced e st.dyn es) (hf : Sendable f)
    (henc : e.encode f.1 f.2 = .ok (o, e')) (hsrc : src.length < 2 ^ 32) (hout : c.outCap < 2 ^ 32)
    (hdrop : src.drop st.pos = o ++ rest) (hcap : st.out.length + (f.1.length + f.2.length) ≤ c.outCap)
    (hcount : st.headers.length < c.maxHeaders) :
    ∃ st' es', blockStep c src st = .inl st' ∧ Decoded st st' o.length f ∧ Synced e' st'.dyn es' ∧
      st'.dyn.hardMax = st.dyn.hardMax := by
  obtain ⟨idx, h, hpos, hlt, hget⟩ | ⟨nidx, dyn, h, hlt, hname, -, H, hmax⟩ := encode_cases S.encoder hf.size
  · cases h.symm.trans henc
    obtain ⟨st', hstep, D, hdyn⟩ := blockStep_indexed S.decoder.toRep hpos hget hlt hdrop hcount
    exact ⟨st', es, hstep, D, by rwa [hdyn], by rw [hdyn]⟩
  · cases h.symm.trans henc
    obtain ⟨dyn', hadd, H', hmax', hhard⟩ := S.decoder.add f hf.size
    obtain ⟨st', hstep, D, hdyn⟩ := blockStep_literal S.decoder.toRep hname hlt hf.name hf.value hsrc hout hdrop hcap
      hcount hadd
    refine ⟨st', _, hstep, D, ⟨H, ?_, ?_⟩, by rw [hdyn, hhard]⟩
    · rwa [hdyn, S.limit]
    · rw [hdyn]
      exact hmax.trans (S.limit.trans hmax'.symm)

lemma encode_ok (H : Holds e.dyn es) (hf : f.size < 2 ^ 32) :
    ∃ o e' es', e.encode f.1 f.2 = .ok (o, e') ∧ o ≠ [] ∧ Holds e'.dyn es' ∧
      e'.pendingSizeUpdate = e.pendingSizeUpdate ∧ e'.pendingMinSize = e.pendingMinSize := by
  have hne {v bits top : Nat} {s : Str} : encodeInteger v bits top ++ s ≠ [] := by
    rw [encodeInteger]
    split <;> simp
  obtain ⟨idx, h, -⟩ | ⟨nidx, dyn, h, -, -, -, H', -⟩ := encode_cases H hf
  · exact ⟨_, e, es, h, by simpa using hne (s := []), H, rfl, rfl⟩
  · refine ⟨_, _, _, h, ?_, H', rfl, rfl⟩
    rw [List.append_assoc]
    exact hne

end step

/-! ## Blocks -/

namespace Encoder

def encodeAll (e : Encoder) : List Field → Outcome (Str × Encoder)
  | [] => .ok ([], e)
  | f :: fs => (e.encode f.1 f.2).bind fun (o, e) => (e.encodeAll fs).bind fun (os, e) => .ok (o ++ os, e)

def encodeBlock (e : Encoder) (fs : List Field) : Outcome (Str × Encoder) :=
  (e.emitPendingSizeUpdate.2.encodeAll fs).bind fun (os, e') => .ok (e.emitPendingSizeUpdate.1 ++ os, e')

end Encoder

def octets (fs : List Field) : Nat := (fs.map fun f => f.1.length + f.2.length).sum

section blocks

variable {c : BlockCaps} {src : Str} {st : BlockState} {es : List Field} {e e' : Encoder}

lemma encodeAll_cons (f : Field) (fs : List Field) : e.encodeAll (f :: fs) =
    (e.encode f.1 f.2).bind fun r => (r.2.encodeAll fs).bind fun r' => .ok (r.1 ++ r'.1, r'.2) := rfl

lemma encodeAll_append {fs gs os os' e₁ e₂} (h : e.encodeAll fs = .ok (os, e₁))
    (h' : e₁.encodeAll gs = .ok (os', e₂)) : e.encodeAll (fs ++ gs) = .ok (os ++ os', e₂) := by
  induction fs generalizing e os with
  | nil =>
    cases h
    exact h'
  | cons f fs ih =>
    obtain ⟨r, hone, h⟩ := bind_eq_ok h
    obtain ⟨r', hall, h⟩ := bind_eq_ok h
    cases h
    rw [List.cons_append, encodeAll_cons, hone]
    simp only [Outcome.bind]
    rw [ih hall, List.append_assoc]

lemma encodeAll_ok (H : Holds e.dyn es) {fs} (hfs : ∀ f ∈ fs, Sendable f) :
    ∃ os e' es', e.encodeAll fs = .ok (os, e') ∧ Holds e'.dyn es' ∧
      e'.pendingSizeUpdate = e.pendingSizeUpdate ∧ e'.pendingMinSize = e.pendingMinSize := by
  induction fs generalizing e es with
  | nil => exact ⟨[], e, es, rfl, H, rfl, rfl⟩
  | cons f fs ih =>
    obtain ⟨hf, hfs⟩ := List.forall_mem_cons.mp hfs
    obtain ⟨o, e₁, es₁, hone, -, H₁, hsize, hmin⟩ := encode_ok H hf.size
    obtain ⟨os, e₂, es₂, hall, H₂, hsize₂, hmin₂⟩ := ih H₁ hfs
    refine ⟨o ++ os, e₂, es₂, ?_, H₂, hsize₂.trans hsize, hmin₂.trans hmin⟩
    rw [encodeAll_cons, hone]
    simp only [Outcome.bind]
    rw [hall]

lemma Synced.block {fs os} (S : Synced e st.dyn es) (hfs : ∀ f ∈ fs, Sendable f)
    (henc : e.encodeAll fs = .ok (os, e')) (hsrc : src.length < 2 ^ 32) (hout : c.outCap < 2 ^ 32)
    (hdrop : src.drop st.pos = os) (hcap : st.out.length + octets fs ≤ c.outCap)
    (hcount : st.headers.length + fs.length ≤ c.maxHeaders) {fuel} (hfuel : os.length < fuel) :
    ∃ st' es', loop (blockStep c src) fuel st = some (.ok st') ∧
      st'.headers.map Header.shown = st.headers.map Header.shown ++ fs ∧ Synced e' st'.dyn es' ∧
      st'.dyn.hardMax = st.dyn.hardMax := by
  induction fs generalizing e st es os fuel with
  | nil =>
    cases henc
    obtain ⟨fuel, rfl⟩ := Nat.exists_eq_succ_of_ne_zero (Nat.ne_of_gt (Nat.lt_of_le_of_lt (Nat.zero_le _) hfuel))
    have hend : src[st.pos]? = none := by rw [← List.head?_drop, hdrop, List.head?_nil]
    refine ⟨st, es, ?_, (List.append_nil _).symm, S, rfl⟩
    rw [loop_succ, blockStep, hend]
  | cons f fs ih =>
    obtain ⟨hf, hfs⟩ := List.forall_mem_cons.mp hfs
    obtain ⟨o, e₁, es₁, hone, hne, H₁, -⟩ := encode_ok S.encoder hf.size
    obtain ⟨os', e₂, es₂, hall, -⟩ := encodeAll_ok H₁ hfs
    rw [encodeAll_cons, hone] at henc
    simp only [Outcome.bind] at henc
    rw [hall] at henc
    cases henc
    have hpos : 0 < o.length := List.length_pos_of_ne_nil hne
    have hoctets : octets (f :: fs) = f.1.length + f.2.length + octets fs := rfl
    obtain ⟨st₁, es₃, hstep, D, S₁, hhard⟩ := S.field hf hone hsrc hout hdrop (by omega) (by
      rw [List.length_cons] at hcount
      omega)
    obtain ⟨h, hheaders, hshown⟩ := D.headers
    dsimp only at hfuel
    rw [List.length_append] at hfuel
    obtain ⟨fuel, rfl⟩ := Nat.exists_eq_succ_of_ne_zero (Nat.ne_of_gt (Nat.lt_of_le_of_lt (Nat.zero_le _) hfuel))
    have hout₁ := D.out
    obtain ⟨st', es', hloop, hheaders', S', hhard'⟩ := ih S₁ hfs hall
      (by rw [D.pos, ← List.drop_drop, hdrop, List.drop_left]) (by omega)
      (by rw [hheaders, List.length_append, List.length_singleton]; rw [List.length_cons] at hcount; omega)
      (show os'.length < fuel by omega)
    refine ⟨st', es', ?_, ?_, S', hhard'.trans hhard⟩
    · rw [loop_succ, hstep]
      exact hloop
    · rw [hheaders', hheaders, List.map_append, List.append_assoc]
      show _ ++ ([h.shown] ++ fs) = _
      rw [hshown]
      rfl

end blocks

/-! ## Updates of the size -/

/-- The decoder's table of the full size and what the encoder's table becomes of it with the updates it has not
announced yet. -/
structure Lockstep (e : Encoder) (d : DynamicTable) (es : List Field) : Prop where
  decoder : Holds d es
  hard : d.hardMax = kHardCap
  encoder : Holds e.dyn (fit Field.size (e.pendingMinSize.getD d.maxSize) es)
  limit : e.dyn.maxSize = e.pendingSizeUpdate.getD d.maxSize
  pending : (e.pendingSizeUpdate = none ∧ e.pendingMinSize = none) ∨
    ∃ size min, e.pendingSizeUpdate = some size ∧ e.pendingMinSize = some min ∧ min ≤ size ∧ size ≤ kHardCap

namespace Lockstep

variable {c : BlockCaps} {src rest : Str} {st : BlockState} {e : Encoder} {d : DynamicTable} {es : List Field}

lemma init {buf buf' : Str} (hbuf : buf.length = kByteCap) (hbuf' : buf'.length = kByteCap) :
    Lockstep (Encoder.init buf kHardCap) (DynamicTable.init buf' kHardCap) [] where
  decoder := Holds.init hbuf' kHardCap
  hard := rfl
  encoder := Holds.init hbuf kHardCap
  limit := rfl
  pending := .inl ⟨rfl, rfl⟩

lemma synced (L : Lockstep e d es) (h : e.pendingSizeUpdate = none ∧ e.pendingMinSize = none) : Synced e d es := by
  have henc := L.encoder
  have hlimit := L.limit
  have hfit : total Field.size es ≤ d.maxSize := by
    rw [← L.decoder.size]
    exact L.decoder.max
  rw [h.2, Option.getD_none, fit_of_le hfit] at henc
  rw [h.1, Option.getD_none] at hlimit
  exact ⟨henc, L.decoder, hlimit⟩

lemma of_synced (S : Synced e d es) (hhard : d.hardMax = kHardCap)
    (h : e.pendingSizeUpdate = none ∧ e.pendingMinSize = none) : Lockstep e d es where
  decoder := S.decoder
  hard := hhard
  encoder := by
    have hfit : total Field.size es ≤ d.maxSize := by
      rw [← S.decoder.size]
      exact S.decoder.max
    rw [h.2, Option.getD_none, fit_of_le hfit]
    exact S.encoder
  limit := by
    rw [h.1, Option.getD_none]
    exact S.limit
  pending := .inl h

lemma setTableSize (L : Lockstep e d es) (settingsMax : Nat) : Lockstep (e.setTableSize settingsMax) d es := by
  unfold Encoder.setTableSize
  generalize hnew : (if settingsMax < kHardCap then settingsMax else kHardCap) = new
  have hle : new ≤ kHardCap := by
    rw [← hnew]
    split <;> omega
  dsimp only
  split
  · exact L
  obtain ⟨H, hmax, -⟩ := L.encoder.setMaxSize hle
  obtain ⟨hsize, hmin⟩ | ⟨size, min, hsize, hmin, hmm, -⟩ := L.pending
  · have hfit : total Field.size es ≤ d.maxSize := by
      rw [← L.decoder.size]
      exact L.decoder.max
    rw [hmin, Option.getD_none, fit_of_le hfit] at H
    rw [if_pos (.inl hsize)]
    exact ⟨L.decoder, L.hard, H, hmax, .inr ⟨new, new, rfl, rfl, le_rfl, hle⟩⟩
  · rw [hmin, Option.getD_some, fit_fit] at H
    rw [hsize, hmin]
    by_cases hlt : new < min
    · rw [if_pos (.inr (by simpa using hlt))]
      rw [Nat.min_eq_right (Nat.le_of_lt hlt)] at H
      exact ⟨L.decoder, L.hard, H, hmax, .inr ⟨new, new, rfl, rfl, le_rfl, hle⟩⟩
    · rw [if_neg (by simpa using hlt)]
      rw [Nat.min_eq_left (Nat.not_lt.mp hlt)] at H
      exact ⟨L.decoder, L.hard, H, hmax, .inr ⟨new, min, rfl, rfl, Nat.not_lt.mp hlt, hle⟩⟩

lemma blockStep_update {m} (hm : m ≤ st.dyn.hardMax) (hhard : st.dyn.hardMax = kHardCap)
    (hdrop : src.drop st.pos = encodeInteger m 5 0x20 ++ rest) : blockStep c src st =
      .inl { st with pos := st.pos + (encodeInteger m 5 0x20).length, dyn := st.dyn.setMaxSize m } := by
  obtain ⟨b, tail, hhead, hge, hlt⟩ := encodeInteger_head m 5 0x20 rfl (by decide)
  obtain ⟨htop, hincremental, hupdate⟩ := octet_class b
  have hcap : kHardCap = 4096 := rfl
  have hfirst : src.drop st.pos = b :: (tail ++ rest) := by
    rw [hdrop, hhead]
    rfl
  apply blockStep_ok hfirst
  · have h₁ : ¬ (b.toNat &&& 0x80 ≠ 0) := fun h => absurd (htop.mp h) (by omega)
    have h₂ : b.toNat &&& 0x20 ≠ 0 := (hupdate (by omega)).mpr hge
    have h₃ : b.toNat &&& 0x40 = 0 := by_contra fun h => absurd ((hincremental (by omega)).mp h) (by omega)
    rw [blockField, if_neg h₁, if_pos ⟨h₂, h₃⟩, sizeUpdate, hdrop,
      decodeInteger_encode 5 0x20 (by decide) (by decide) rfl (by omega)]
    exact if_neg (Nat.not_lt.mpr hm)

lemma loop_update {m fuel} (hm : m ≤ kHardCap) (hhard : st.dyn.hardMax = kHardCap)
    (hdrop : src.drop st.pos = encodeInteger m 5 0x20 ++ rest) (hfuel : (encodeInteger m 5 0x20 ++ rest).length < fuel) :
    ∃ st' fuel', loop (blockStep c src) fuel st = loop (blockStep c src) fuel' st' ∧ rest.length < fuel' ∧
      st'.dyn = st.dyn.setMaxSize m ∧ src.drop st'.pos = rest ∧ st'.out = st.out ∧ st'.headers = st.headers := by
  obtain ⟨b, tail, hhead, -⟩ := encodeInteger_head m 5 0x20 rfl (by decide)
  have hlen : (encodeInteger m 5 0x20).length = tail.length + 1 := by rw [hhead, List.length_cons]
  rw [List.length_append] at hfuel
  obtain ⟨fuel, rfl⟩ := Nat.exists_eq_succ_of_ne_zero (Nat.ne_of_gt (Nat.lt_of_le_of_lt (Nat.zero_le _) hfuel))
  refine ⟨{ st with pos := st.pos + (encodeInteger m 5 0x20).length, dyn := st.dyn.setMaxSize m }, fuel, ?_, by omega, rfl,
    ?_, rfl, rfl⟩
  · rw [loop_succ, blockStep_update (by rwa [hhard]) hhard hdrop]
  · rw [← List.drop_drop, hdrop, List.drop_left]

lemma emit_none (h : e.pendingSizeUpdate = none) : e.emitPendingSizeUpdate = ([], e) := by
  rw [Encoder.emitPendingSizeUpdate, h]

lemma emit_some {size min} (hsize : e.pendingSizeUpdate = some size) (hmin : e.pendingMinSize = some min) :
    e.emitPendingSizeUpdate = ((if min ≠ size then encodeInteger min 5 0x20 else []) ++ encodeInteger size 5 0x20,
        { e with pendingSizeUpdate := none, pendingMinSize := none }) := by
  rw [Encoder.emitPendingSizeUpdate, hsize, hmin]

lemma updates (L : Lockstep e st.dyn es) {os : Str} (hdrop : src.drop st.pos = e.emitPendingSizeUpdate.1 ++ os)
    {fuel} (hfuel : (e.emitPendingSizeUpdate.1 ++ os).length < fuel) :
    ∃ st' es' fuel', loop (blockStep c src) fuel st = loop (blockStep c src) fuel' st' ∧ os.length < fuel' ∧
      Synced e.emitPendingSizeUpdate.2 st'.dyn es' ∧ st'.dyn.hardMax = kHardCap ∧ src.drop st'.pos = os ∧
      st'.out = st.out ∧ st'.headers = st.headers ∧ e.emitPendingSizeUpdate.2.pendingSizeUpdate = none ∧
      e.emitPendingSizeUpdate.2.pendingMinSize = none := by
  obtain hnone | ⟨size, min, hsize, hmin, hle, hcap⟩ := L.pending
  · rw [emit_none hnone.1] at hdrop hfuel ⊢
    exact ⟨st, es, fuel, rfl, hfuel, L.synced hnone, L.hard, hdrop, rfl, rfl, hnone.1, hnone.2⟩
  have henc := L.encoder
  have hlimit := L.limit
  rw [hmin, Option.getD_some] at henc
  rw [hsize, Option.getD_some] at hlimit
  rw [emit_some hsize hmin] at hdrop hfuel ⊢
  by_cases heq : min = size
  · -- the limit only fell
    subst heq
    rw [if_neg (not_not.mpr rfl), List.nil_append] at hdrop hfuel
    obtain ⟨st₁, fuel₁, hloop, hfuel₁, hdyn, hpos, hout, hheaders⟩ := loop_update hcap L.hard hdrop hfuel
    obtain ⟨H, hmax, hhard⟩ := L.decoder.setMaxSize hcap
    refine ⟨st₁, _, fuel₁, hloop, hfuel₁, ⟨henc, ?_, ?_⟩, ?_, hpos, hout, hheaders, rfl, rfl⟩
    · rwa [hdyn]
    · rw [hdyn, hmax, hlimit]
    · rw [hdyn, hhard, L.hard]
  · -- it fell and rose again
    rw [if_pos heq, List.append_assoc] at hdrop hfuel
    obtain ⟨st₁, fuel₁, hloop, hfuel₁, hdyn, hpos, hout, hheaders⟩ := loop_update (hle.trans hcap) L.hard hdrop hfuel
    obtain ⟨H, hmax, hhard⟩ := L.decoder.setMaxSize (hle.trans hcap)
    have hhard₁ : st₁.dyn.hardMax = kHardCap := by rw [hdyn, hhard, L.hard]
    obtain ⟨st₂, fuel₂, hloop₂, hfuel₂, hdyn₂, hpos₂, hout₂, hheaders₂⟩ := loop_update hcap hhard₁ hpos hfuel₁
    rw [← hdyn] at H
    obtain ⟨H₂, hmax₂, hhard₂⟩ := H.setMaxSize hcap
    rw [fit_fit, Nat.min_eq_left hle] at H₂
    refine ⟨st₂, _, fuel₂, hloop.trans hloop₂, hfuel₂, ⟨henc, ?_, ?_⟩, ?_, hpos₂, hout₂.trans hout,
      hheaders₂.trans hheaders, rfl, rfl⟩
    · rwa [hdyn₂]
    · rw [hdyn₂, hmax₂, hlimit]
    · rw [hdyn₂, hhard₂, hhard₁]

lemma block (L : Lockstep e d es) {fs o e'} (hfs : ∀ f ∈ fs, Sendable f)
    (henc : e.encodeBlock fs = .ok (o, e')) (hlen : o.length < 2 ^ 32) (hout : c.outCap < 2 ^ 32)
    (hcap : octets fs ≤ c.outCap) (hcount : fs.length ≤ c.maxHeaders) :
    ∃ st es', decodeHeaderBlock c d o = .ok st ∧ st.headers.map Header.shown = fs ∧ Synced e' st.dyn es' ∧
      Lockstep e' st.dyn es' := by
  obtain ⟨⟨os, e''⟩, hall, henc⟩ := bind_eq_ok henc
  cases henc
  let st₀ : BlockState := { dyn := d, pos := 0, out := [], headers := [] }
  have L₀ : Lockstep e st₀.dyn es := L
  obtain ⟨st₁, es₁, fuel₁, hloop, hfuel, S, hhard, hdrop, hout₁, hheaders₁, hnone⟩ :=
    L₀.updates (c := c) (show (e.emitPendingSizeUpdate.1 ++ os).drop 0 = _ from rfl) (Nat.lt_succ_self _)
  have hlen₁ : st₁.out.length = 0 := by rw [hout₁]; rfl
  have hcount₁ : st₁.headers.length = 0 := by rw [hheaders₁]; rfl
  obtain ⟨st₂, es₂, hloop₂, hshown, S₂, hhard₂⟩ := S.block hfs hall hlen hout hdrop (by omega) (by omega) hfuel
  obtain ⟨os', e₃, es₃, hall', -, hsize, hmin⟩ := encodeAll_ok S.encoder hfs
  cases hall.symm.trans hall'
  refine ⟨st₂, es₂, ?_, ?_, S₂, of_synced S₂ (hhard₂.trans hhard) ⟨hsize.trans hnone.1, hmin.trans hnone.2⟩⟩
  · rw [decodeHeaderBlock, hloop, hloop₂]
    rfl
  · rw [hshown, hheaders₁]
    rfl

lemma emit_encoder (L : Lockstep e d es) :
    Holds e.emitPendingSizeUpdate.2.dyn (fit Field.size (e.pendingMinSize.getD d.maxSize) es) := by
  obtain hnone | ⟨size, min, hsize, hmin, -⟩ := L.pending
  · rw [emit_none hnone.1]
    exact L.encoder
  · rw [emit_some hsize hmin]
    exact L.encoder

lemma length_emit_le (L : Lockstep e d es) : e.emitPendingSizeUpdate.1.length ≤ 12 := by
  have hcap : kHardCap = 4096 := rfl
  have hlen {m : Nat} (hm : m ≤ kHardCap) : (encodeInteger m 5 0x20).length ≤ 6 :=
    (@encodeInteger_text 5 0x20 m (by decide) (by decide) rfl (by omega) []).2
  obtain hnone | ⟨size, min, hsize, hmin, hle, hsizeCap⟩ := L.pending
  · rw [emit_none hnone.1]
    exact Nat.zero_le 12
  · have hsize' := hlen hsizeCap
    have hmin' := hlen (hle.trans hsizeCap)
    rw [emit_some hsize hmin, List.length_append]
    split
    · omega
    · rw [List.length_nil]
      omega

lemma encodeBlock_ok (L : Lockstep e d es) {fs} (hfs : ∀ f ∈ fs, Sendable f) :
    ∃ o e', e.encodeBlock fs = .ok (o, e') := by
  obtain ⟨os, e', -, hall, -⟩ := encodeAll_ok L.emit_encoder hfs
  refine ⟨e.emitPendingSizeUpdate.1 ++ os, e', ?_⟩
  rw [Encoder.encodeBlock, hall]
  rfl

end Lockstep

/-! ## Runs -/

/-- The tables after settings and blocks in any order, from tables of the full size. -/
inductive Exchanged (buf buf' : Str) : Encoder → DynamicTable → Prop where
  | init : Exchanged buf buf' (Encoder.init buf kHardCap) (DynamicTable.init buf' kHardCap)
  | setTableSize {e : Encoder} {d : DynamicTable} (h : Exchanged buf buf' e d) (settingsMax : Nat) :
    Exchanged buf buf' (e.setTableSize settingsMax) d
  | block {c : BlockCaps} {e e' : Encoder} {d : DynamicTable} {fs : List Field} {o : Str} {st : BlockState}
    (h : Exchanged buf buf' e d) (hfs : ∀ f ∈ fs, Sendable f) (henc : e.encodeBlock fs = .ok (o, e'))
    (hlen : o.length < 2 ^ 32) (hout : c.outCap < 2 ^ 32) (hcap : octets fs ≤ c.outCap)
    (hcount : fs.length ≤ c.maxHeaders) (hdec : decodeHeaderBlock c d o = .ok st) : Exchanged buf buf' e' st.dyn

structure SameTable (a b : DynamicTable) : Prop where
  fields : a.ents.map a.entry = b.ents.map b.entry
  ents : a.ents = b.ents
  size : a.tableSize = b.tableSize
  limit : a.maxSize = b.maxSize

lemma Synced.same {e : Encoder} {d : DynamicTable} {es : List Field} (S : Synced e d es) : SameTable e.dyn d where
  fields := by rw [S.encoder.entries, S.decoder.entries]
  ents := by rw [S.encoder.ents, S.decoder.ents]
  size := by rw [S.encoder.size, S.decoder.size]
  limit := S.limit

lemma Exchanged.lockstep {buf buf'} (hbuf : buf.length = kByteCap) (hbuf' : buf'.length = kByteCap) {e d} (h : Exchanged buf buf' e d) : ∃ es, Lockstep e d es := by
  induction h with
  | init => exact ⟨[], Lockstep.init hbuf hbuf'⟩
  | setTableSize h settingsMax ih =>
    obtain ⟨es, L⟩ := ih
    exact ⟨es, L.setTableSize settingsMax⟩
  | block h hfs henc hlen hout hcap hcount hdec ih =>
    obtain ⟨es, L⟩ := ih
    obtain ⟨st, es', hdec', -, -, L'⟩ := L.block hfs henc hlen hout hcap hcount
    cases hdec.symm.trans hdec'
    exact ⟨es', L'⟩

end Rut.Hpack
