import Rut.Auth.SignedRequest
import Rut.Json.Apply

/-!
# Verification of tokens

Port of `b64url_decode` and `jwt_decode_claims` in `src/jit/runtime_helpers.cc`. The 32-bit accumulator of the decoder
wraps; the scan of the header members decodes names and algorithms into buffers of 16 bytes.
-/

set_option linter.all false
namespace Rut.Auth

open Lib Json

/-- The loop of `b64url_decode`, with the bits in `acc` that are not written yet. -/
def b64urlLoop (cap : Nat) : Nat → Nat → Str → Str → Option (Nat × Nat × Str)
  | acc, bits, out, [] => some (acc, bits, out)
  | acc, bits, out, c :: s =>
    match base64urlValue c with
    | none => none
    | some value =>
      let acc := (acc <<< 6) % 2 ^ 32 ||| value
      if bits + 6 ≥ 8 then
        let bits := bits + 6 - 8
        if out.length = cap then none else b64urlLoop cap acc bits (out ++ [UInt8.ofNat (acc >>> bits)]) s
      else b64urlLoop cap acc (bits + 6) out s

def b64urlDecode (input : Str) (cap : Nat) : Option Str :=
  if input.length % 4 = 1 then none
  else
    match b64urlLoop cap 0 0 [] input with
    | none => none
    | some (acc, bits, out) => if bits ≠ 0 ∧ acc % 2 ^ bits ≠ 0 then none else some out

def splitToken (token : Str) : Option (Str × Str × Str) :=
  match token.dropWhile (· != ch '.') with
  | [] => none
  | _ :: rest =>
    match rest.dropWhile (· != ch '.') with
    | [] => none
    | _ :: signature =>
      if ch '.' ∈ signature then none
      else some (token.takeWhile (· != ch '.'), rest.takeWhile (· != ch '.'), signature)

def critName : Str := lit ['c','r','i','t']

def b64Name : Str := lit ['b','6','4']

def algName : Str := lit ['a','l','g']

def digestKind (alg : Str) : Option HashAlgorithm :=
  if alg = lit ['H','S','2','5','6'] then some .sha256
  else if alg = lit ['H','S','3','8','4'] then some .sha384
  else if alg = lit ['H','S','5','1','2'] then some .sha512
  else none

/-- What the scan of the header found: `has_crit`, and the digest once there was an `alg`. -/
structure HeaderScan where
  hasCrit : Bool := false
  digest : Option HashAlgorithm := none
deriving DecidableEq

def scanHeader (d : Document) (pin : Option Str) : Nat → Option Nat → HeaderScan → Option HeaderScan
  | _, none, scan => some scan
  | 0, some _, _ => none
  | turns + 1, some node, scan =>
    match (d.nodes node).key.bind fun key => d.string key (.fresh 16) with
    | none => scanHeader d pin turns (d.nodes node).next scan
    | some key =>
      if key.out = critName then scanHeader d pin turns (d.nodes node).next { scan with hasCrit := true }
      else if key.out = b64Name then
        if (d.nodes node).kind ≠ .boolean ∨ d.raw node ≠ trueToken then none
        else scanHeader d pin turns (d.nodes node).next scan
      else if key.out ≠ algName then scanHeader d pin turns (d.nodes node).next scan
      else if scan.digest.isSome then none
      else if (d.nodes node).kind ≠ .string then none
      else
        match d.string node (.fresh 16) with
        | none => none
        | some alg =>
          if pin.any fun pin => alg.out ≠ pin then none
          else
            match digestKind alg.out with
            | none => none
            | some digest => scanHeader d pin turns (d.nodes node).next { scan with digest := some digest }

/-- `jwt_decode_claims`: the document it leaves and `payload_out`. -/
def jwtDecodeClaims (crypto : Crypto) (token secret : Str) (pin : Option Str) (d : Document) : Option (Document × Str) :=
  if pin.any fun pin => (digestKind pin).isNone then none
  else if token.length > kMaxBytes * 3 then none
  else
    match splitToken token with
    | none => none
    | some (header, payload, signature) =>
      if header = [] ∨ payload = [] ∨ signature = [] then none
      else
        match b64urlDecode header kMaxBytes with
        | none => none
        | some headerBytes =>
          if headerBytes.length > 1024 then none
          else
            let (d, ok) := d.parse headerBytes
            if !ok then none
            else if (d.nodes 0).kind ≠ .object then none
            else
              match scanHeader d pin d.count (d.nodes 0).child {} with
              | none => none
              | some scan =>
                match scan.digest with
                | none => none
                | some digest =>
                  if scan.hasCrit then none
                  else if secret.length < digestSize digest then none
                  else
                    match b64urlDecode signature kMaxHashDigestBytes with
                    | none => none
                    | some signatureBytes =>
                      if secret.length > 0x7fffffff ∨ token.length > 0x7fffffff then none
                      else
                        match crypto.hmacLongKeyV1 digest (header ++ ch '.' :: payload) secret kMaxHashDigestBytes with
                        | none => none
                        | some expected =>
                          if signatureBytes ≠ expected then none
                          else
                            match b64urlDecode payload kMaxBytes with
                            | none => none
                            | some payloadBytes =>
                              let (d, ok) := d.parse payloadBytes
                              if !ok then none
                              else if (d.nodes 0).kind ≠ .object then none
                              else some (d, payloadBytes)

/-! ## The decoder -/

lemma natBits_wrap {n acc v} (hn : n ≤ 26) (hv : v < 64) :
    natBits (n + 6) ((acc <<< 6) % 2 ^ 32 ||| v) = natBits n acc ++ natBits 6 v := by
  have hshift : (acc <<< 6) % 2 ^ 32 = (acc % 2 ^ 26) <<< 6 := by
    omega
  rw [hshift, natBits_shift_or n (k := 6) hv]
  congr 1
  apply natBits_congr
  exact Nat.mod_mod_of_dvd _ (Nat.pow_dvd_pow 2 hn)

lemma b64urlLoop_spec {cap acc bits acc' bits' out out' s} (hbits : bits < 8) (hout : out.length ≤ cap)
    (h : b64urlLoop cap acc bits out s = some (acc', bits', out')) :
    ∃ digits, s = digits.map base64url.char ∧ (∀ d ∈ digits, d < 64) ∧ bits' < 8 ∧ out'.length ≤ cap ∧
      byteBits out ++ natBits bits acc ++ digitBits digits = byteBits out' ++ natBits bits' acc' := by
  induction s generalizing acc bits out with
  | nil =>
    cases h
    exact ⟨[], rfl, by simp, hbits, hout, List.append_nil _⟩
  | cons c s ih =>
    rw [b64urlLoop] at h
    cases hvalue : base64urlValue c with
    | none =>
      rw [hvalue] at h
      cases h
    | some v =>
      obtain ⟨hv, hchar⟩ := base64url.char_value c v hvalue
      rw [hvalue] at h
      dsimp only at h
      have hwrap := @natBits_wrap bits acc v (by omega) hv
      generalize (acc <<< 6) % 2 ^ 32 ||| v = acc₁ at h hwrap
      -- a digit more in front of those read later
      have hcons : ∀ {digits}, s = digits.map base64url.char → (∀ d ∈ digits, d < 64) →
          c :: s = (v :: digits).map base64url.char ∧ ∀ d ∈ v :: digits, d < 64 := by
        rintro digits rfl hdigits
        refine ⟨by rw [List.map_cons, hchar], ?_⟩
        intro d hd
        rcases List.mem_cons.1 hd with rfl | hd
        · exact hv
        · exact hdigits d hd
      have hdigit : ∀ digits, digitBits (v :: digits) = natBits 6 v ++ digitBits digits := fun _ => rfl
      split_ifs at h with hbyte hcap
      · obtain ⟨digits, hs, hdigits, hbits', hout', heq⟩ :=
          ih (by omega) (by rw [List.length_append, List.length_singleton]; omega) h
        refine ⟨v :: digits, (hcons hs hdigits).1, (hcons hs hdigits).2, hbits', hout', ?_⟩
        rw [← heq, hdigit]
        have hcut := natBits_add 8 (bits + 6 - 8) acc₁
        rw [show 8 + (bits + 6 - 8) = bits + 6 by omega, hwrap, ← Nat.shiftRight_eq_div_pow] at hcut
        have hbyte : byteBits [UInt8.ofNat (acc₁ >>> (bits + 6 - 8))] = natBits 8 (acc₁ >>> (bits + 6 - 8)) := by
          rw [byteBits, List.flatMap_singleton, UInt8.toNat_ofNat', natBits_mod]
        rw [byteBits_append, hbyte]
        simp only [List.append_assoc]
        rw [← List.append_assoc (natBits bits acc), hcut, List.append_assoc]
      · obtain ⟨digits, hs, hdigits, hbits', hout', heq⟩ := ih (by omega) hout h
        refine ⟨v :: digits, (hcons hs hdigits).1, (hcons hs hdigits).2, hbits', hout', ?_⟩
        rw [← heq, hdigit, hwrap]
        simp only [List.append_assoc]

lemma b64urlLoop_total {cap acc bits out} {digits : List Nat} (hdigits : ∀ d ∈ digits, d < 64)
    (hroom : out.length + (bits + 6 * digits.length) / 8 ≤ cap) :
    ∃ r, b64urlLoop cap acc bits out (digits.map base64url.char) = some r := by
  induction digits generalizing acc bits out with
  | nil => exact ⟨_, rfl⟩
  | cons d digits ih =>
    have hvalue : base64urlValue (base64url.char d) = some d := base64url.value_char d (hdigits d List.mem_cons_self)
    have hrest : ∀ d ∈ digits, d < 64 := fun x hx => hdigits x (List.mem_cons_of_mem _ hx)
    rw [List.length_cons] at hroom
    rw [List.map_cons, b64urlLoop, hvalue]
    split_ifs with hbyte hcap
    · omega
    · apply ih hrest
      rw [List.length_append, List.length_singleton]
      omega
    · apply ih hrest
      omega

lemma natBits_eq_zero_iff {n v} : natBits n v = List.replicate n false ↔ v % 2 ^ n = 0 := by
  constructor
  · intro h
    rw [← natBits_zero, ← natBits_mod] at h
    exact natBits_inj (Nat.mod_lt _ (Nat.two_pow_pos n)) (Nat.two_pow_pos n) h
  · intro h
    rw [← natBits_mod, h, natBits_zero]

lemma b64urlDecode_iff {input out cap} :
    b64urlDecode input cap = some out ↔ input = base64url.encode out ∧ out.length ≤ cap := by
  constructor
  · intro h
    obtain ⟨hlen, h⟩ := Option.ite_none_left_eq_some.1 h
    cases hloop : b64urlLoop cap 0 0 [] input with
    | none =>
      rw [hloop] at h
      cases h
    | some r =>
      obtain ⟨acc, bits, out'⟩ := r
      rw [hloop] at h
      obtain ⟨htail, h⟩ := Option.ite_none_left_eq_some.1 h
      cases h
      obtain ⟨digits, rfl, hdigits, hbits, hout, heq⟩ := b64urlLoop_spec (by omega) (Nat.zero_le _) hloop
      simp only [byteBits_nil, natBits, List.nil_append] at heq
      have hzero : acc % 2 ^ bits = 0 := by
        rcases Nat.eq_zero_or_pos bits with rfl | hpos
        · exact Nat.mod_one _
        · by_contra hne
          exact htail ⟨by omega, hne⟩
      rw [natBits_eq_zero_iff.2 hzero] at heq
      have hcount := congrArg List.length heq
      rw [digitBits_length, List.length_append, byteBits_length, List.length_replicate] at hcount
      rw [List.length_map] at hlen
      refine ⟨?_, hout⟩
      rw [Alphabet.encode, ← (eq_base64Digits_iff hdigits).2 ⟨bits, by omega, heq⟩]
  · rintro ⟨rfl, hout⟩
    have hdigits := base64Digits_lt out
    have hcount := base64Digits_length out
    have hbits := digitBits_base64Digits out
    rw [b64urlDecode, Alphabet.encode_length, if_neg (by omega)]
    obtain ⟨⟨acc, bits, out'⟩, hloop⟩ := @b64urlLoop_total cap 0 0 [] _ hdigits (by rw [hcount]; simp only [List.length_nil]; omega)
    obtain ⟨digits, hsame, hdigits', hlt, -, heq⟩ := b64urlLoop_spec (by omega) (Nat.zero_le _) hloop
    -- the digits read are those of the encoding
    have hread : digits = base64Digits out := by
      have hvalue := congrArg (List.map base64url.value) hsame
      rw [List.map_map, List.map_map] at hvalue
      have hsome : ∀ l : List Nat, (∀ d ∈ l, d < 64) → l.map (base64url.value ∘ base64url.char) = l.map some :=
        fun l hl => List.map_congr_left fun d hd => base64url.value_char d (hl d hd)
      rw [hsome _ hdigits, hsome _ hdigits'] at hvalue
      exact (List.map_injective_iff.2 (Option.some_injective _) hvalue).symm
    rw [hread, hbits] at heq
    simp only [byteBits_nil, natBits, List.nil_append] at heq
    have hlength := congrArg List.length heq
    rw [List.length_append, List.length_append, byteBits_length, byteBits_length, List.length_replicate, natBits_length]
      at hlength
    have hunused : unusedBits out.length < 6 := by
      rw [unusedBits]
      split_ifs <;> omega
    obtain ⟨hbytes, htail⟩ := List.append_inj heq (by rw [byteBits_length, byteBits_length]; omega)
    have hout' : out' = out := (byteBits_inj (by omega) hbytes).symm
    have hbits' : unusedBits out.length = bits := by omega
    rw [hbits'] at htail
    have hzero := natBits_eq_zero_iff.1 htail.symm
    rw [Alphabet.encode, hloop, hout']
    dsimp only
    rw [if_neg fun h => h.2 hzero]

/-! ## The parts of a token -/

lemma takeWhile_cut {c} {a s : Str} (ha : c ∉ a) : (a ++ c :: s).takeWhile (· != c) = a := by
  rw [List.takeWhile_append_of_pos]
  · simp
  · intro b hb
    simp only [bne_iff_ne]
    rintro rfl
    exact ha hb

lemma dropWhile_cut {c} {a s : Str} (ha : c ∉ a) : (a ++ c :: s).dropWhile (· != c) = c :: s := by
  rw [List.dropWhile_append_of_pos]
  · simp
  · intro b hb
    simp only [bne_iff_ne]
    rintro rfl
    exact ha hb

lemma cut_exists {c d} {s rest : Str} (h : s.dropWhile (· != c) = d :: rest) :
    s = s.takeWhile (· != c) ++ c :: rest ∧ c ∉ s.takeWhile (· != c) := by
  have hhead := List.head?_dropWhile_not (· != c) s
  have hsplit := List.takeWhile_append_dropWhile (p := (· != c)) (l := s)
  rw [h] at hhead hsplit
  have hd : d = c := by simpa using hhead
  subst hd
  refine ⟨hsplit.symm, ?_⟩
  intro hmem
  have hne := List.mem_takeWhile_imp hmem
  simp at hne

lemma splitToken_iff {token header payload signature} : splitToken token = some (header, payload, signature) ↔
      token = header ++ ch '.' :: (payload ++ ch '.' :: signature) ∧ ch '.' ∉ header ∧ ch '.' ∉ payload ∧
        ch '.' ∉ signature := by
  constructor
  · intro h
    rw [splitToken] at h
    rcases hfirst : token.dropWhile (· != ch '.') with - | ⟨c, rest⟩
    · rw [hfirst] at h
      cases h
    · rw [hfirst] at h
      dsimp only at h
      rcases hsecond : rest.dropWhile (· != ch '.') with - | ⟨c', tail⟩
      · rw [hsecond] at h
        cases h
      · rw [hsecond] at h
        obtain ⟨hdots, h⟩ := Option.ite_none_left_eq_some.1 h
        obtain ⟨htoken, hheader⟩ := cut_exists hfirst
        obtain ⟨hrest, hpayload⟩ := cut_exists hsecond
        cases h
        exact ⟨by rw [← hrest, ← htoken], hheader, hpayload, hdots⟩
  · rintro ⟨rfl, hheader, hpayload, hsignature⟩
    rw [splitToken, dropWhile_cut hheader, takeWhile_cut hheader]
    dsimp only
    rw [dropWhile_cut hpayload, takeWhile_cut hpayload]
    dsimp only
    rw [if_neg hsignature]

lemma not_mem_encode (bytes : Str) : ch '.' ∉ base64url.encode bytes := by
  intro hmem
  obtain ⟨d, hd⟩ := base64url.value_of_mem_encode hmem
  cases hd

lemma encode_eq_nil {bytes : Str} : base64url.encode bytes = [] ↔ bytes = [] := by
  have hlen := base64url.encode_length bytes
  constructor
  · intro h
    rw [h, List.length_nil] at hlen
    apply List.length_eq_zero_iff.1
    omega
  · rintro rfl
    rfl

/-! ## The header -/

def members {ρ : Type} : Forest ρ → List (Str × Shape)
  | .nil => []
  | .cons name _ shape _ next => (name.map fun n => (n.2, shape)).toList ++ members next

lemma members_names {ρ} (f : Forest ρ) : (members f).map Prod.fst = f.names := by
  induction f with
  | nil => rfl
  | cons name mark shape children next _ ihn =>
    rw [members, Forest.names, List.map_append, ihn]
    cases name <;> rfl

lemma names_nodup {f : Forest Span} (h : f.Distinct) : f.names.Nodup := by
  induction f with
  | nil => exact List.nodup_nil
  | cons name mark shape children next _ ihn =>
    obtain ⟨hname, -, hnext⟩ := h
    cases name with
    | none => exact ihn hnext
    | some n => exact List.nodup_cons.2 ⟨hname n.2 rfl, ihn hnext⟩

def scanMember (pin : Option Str) (scan : HeaderScan) (m : Str × Shape) : Option HeaderScan :=
  if m.1 = critName then some { scan with hasCrit := true }
  else if m.1 = b64Name then if m.2 = .boolean true then some scan else none
  else if m.1 ≠ algName then some scan
  else if scan.digest.isSome then none
  else
    match m.2 with
    | .string alg =>
      if pin.any fun pin => alg ≠ pin then none
      else (digestKind alg).map fun digest => { scan with digest := some digest }
    | _ => none

lemma raw_true_iff {d : Document} {id mark shape} (h : d.Shows id mark shape) :
    ((d.nodes id).kind ≠ .boolean ∨ d.raw id ≠ trueToken) ↔ shape ≠ .boolean true := by
  have hraw : d.raw id = Document.slice d.source mark := by rw [Document.raw, Document.slice, h.start, h.stop]
  rw [h.kind, hraw]
  cases shape with
  | boolean b =>
    have htext := h.text (by simp) (by simp)
    generalize Document.slice d.source mark = t at htext
    cases htext with
    | trueLit => simp [Shape.kind]
    | falseLit =>
      have hne : falseToken ≠ trueToken := by decide
      simp [Shape.kind, hne]
  | null => simp [Shape.kind]
  | number => simp [Shape.kind]
  | string => simp [Shape.kind]
  | array => simp [Shape.kind]
  | object => simp [Shape.kind]

lemma digestKind_length {alg digest} (h : digestKind alg = some digest) : alg.length ≤ 16 := by
  rw [digestKind] at h
  split_ifs at h with h₁ h₂ h₃
  · rw [h₁]
    decide
  · rw [h₂]
    decide
  · rw [h₃]
    decide

lemma scanHeader_eq {d f base turns head} (hd : d.Sane)
    (h : d.Stand true f base head) (hturns : f.length ≤ turns) (pin : Option Str) (scan : HeaderScan) :
    scanHeader d pin turns head scan = (members f).foldlM (scanMember pin) scan := by
  induction f generalizing base head turns scan with
  | nil =>
    cases h.holds
    cases turns <;> rfl
  | cons name mark shape children next _ ihn =>
    obtain ⟨n, rfl, -⟩ := h.keyName hd
    have hroom := h.room
    obtain ⟨rfl, hkey, hname, hshows, -⟩ := h.holds
    have hnext := h.tail
    have hn := hname n rfl
    simp only [Option.toList_some, List.length_singleton, Option.map_some, Forest.size] at hkey hroom hshows hnext ⊢
    cases turns with
    | zero => cases hturns
    | succ turns =>
      have hrest := fun scan => ihn hnext (by simpa [Forest.length] using hturns) scan
      have hkeyString : d.string base (.fresh 16) = (Writer.fresh 16).emit n.2 := hn.string hd (by omega) _
      rw [scanHeader, hkey, Option.bind_some, hkeyString, members]
      simp only [Option.map_some, Option.toList_some, List.cons_append, List.nil_append, List.foldlM_cons, hrest]
      rcases Nat.lt_or_ge 16 n.2.length with hlong | hshort
      · -- the name does not fit
        rw [Writer.emit_of_full (by simp; omega)]
        have hother : ∀ name : Str, name.length ≤ 16 → n.2 ≠ name := by
          rintro name hle rfl
          omega
        rw [scanMember, if_neg (hother _ (by decide)), if_neg (hother _ (by decide)), if_pos (hother _ (by decide))]
        rfl
      · rw [Writer.emit_fresh hshort]
        simp only [scanMember, raw_true_iff hshows]
        rcases Decidable.em (n.2 = critName) with hcrit | hcrit
        · rw [if_pos hcrit, if_pos hcrit]
          rfl
        rcases Decidable.em (n.2 = b64Name) with hb64 | hb64
        · rw [if_neg hcrit, if_neg hcrit, if_pos hb64, if_pos hb64]
          rcases Decidable.em (shape = .boolean true) with htrue | htrue
          · rw [if_neg (not_not.2 htrue), if_pos htrue]
            rfl
          · rw [if_pos htrue, if_neg htrue]
            rfl
        rcases Decidable.em (n.2 = algName) with halg | halg
        · rw [if_neg hcrit, if_neg hcrit, if_neg hb64, if_neg hb64, if_neg (not_not.2 halg), if_neg (not_not.2 halg)]
          cases scan.digest with
          | some digest => rfl
          | none =>
            simp only [Option.isSome_none, Bool.false_eq_true, if_false, hshows.kind]
            cases shape with
            | string alg =>
              rw [if_neg (by simp [Shape.kind]), hshows.string hd (by omega)]
              rcases Nat.lt_or_ge 16 alg.length with hlong | hfits
              · -- the algorithm does not fit
                rw [Writer.emit_of_full (by simp; omega)]
                have hnone : digestKind alg = none := by
                  cases hkind : digestKind alg with
                  | none => rfl
                  | some digest =>
                    have := digestKind_length hkind
                    omega
                simp [hnone]
              · rw [Writer.emit_fresh hfits]
                dsimp only
                split_ifs with hpin
                · rfl
                · cases digestKind alg <;> rfl
            | null => rfl
            | boolean => rfl
            | number => rfl
            | array => rfl
            | object => rfl
        · rw [if_neg hcrit, if_neg hcrit, if_neg hb64, if_neg hb64, if_pos halg, if_pos halg]
          rfl

structure Scanned (pin : Option Str) (ms : List (Str × Shape)) (scan scan' : HeaderScan) : Prop where
  b64 : ∀ shape, (b64Name, shape) ∈ ms → shape = .boolean true
  crit : scan'.hasCrit = true ↔ scan.hasCrit = true ∨ ∃ shape, (critName, shape) ∈ ms
  alg : ∀ shape, (algName, shape) ∈ ms → scan.digest = none ∧
    ∃ alg, shape = .string alg ∧ (∀ p ∈ pin, alg = p) ∧ (digestKind alg).isSome ∧ scan'.digest = digestKind alg
  other : (∀ shape, (algName, shape) ∉ ms) → scan'.digest = scan.digest

section scan
variable {pin : Option Str} {m : Str × Shape} {ms : List (Str × Shape)} {scan scan₁ scan' : HeaderScan}

lemma Scanned.cons (hm : scanMember pin scan m = some scan₁) (hfresh : m.1 ∉ ms.map Prod.fst) :
    Scanned pin (m :: ms) scan scan' ↔ Scanned pin ms scan₁ scan' := by
  obtain ⟨name, shape⟩ := m
  have hne₁ : critName ≠ b64Name := by decide
  have hne₂ : critName ≠ algName := by decide
  have hne₃ : b64Name ≠ algName := by decide
  have hmem : ∀ {name' shape'}, name' ≠ name → ((name', shape') ∈ (name, shape) :: ms ↔ (name', shape') ∈ ms) := by
    intro name' shape' hne
    rw [List.mem_cons, Prod.mk.injEq]
    exact ⟨fun h => h.resolve_left fun h => hne h.1, .inr⟩
  have hhead : ∀ {shape'}, (name, shape') ∈ (name, shape) :: ms ↔ shape' = shape := by
    intro shape'
    rw [List.mem_cons, Prod.mk.injEq]
    refine ⟨fun h => (h.resolve_right fun h => hfresh (List.mem_map.2 ⟨_, h, rfl⟩)).2, fun h => .inl ⟨rfl, h⟩⟩
  have hnone : ∀ shape', (name, shape') ∉ ms := fun shape' h => hfresh (List.mem_map.2 ⟨_, h, rfl⟩)
  rw [scanMember] at hm
  split_ifs at hm with hcrit hb64 htrue halg hseen
  · subst hcrit
    cases hm
    constructor
    · rintro ⟨h₁, h₂, h₃, h₄⟩
      refine ⟨fun s hs => h₁ s ((hmem hne₁.symm).2 hs), ?_, fun s hs => h₃ s ((hmem hne₂.symm).2 hs),
        fun h => h₄ fun s hs => h s ((hmem hne₂.symm).1 hs)⟩
      exact h₂.trans ⟨fun _ => .inl rfl, fun _ => .inr ⟨shape, hhead.2 rfl⟩⟩
    · rintro ⟨h₁, h₂, h₃, h₄⟩
      refine ⟨fun s hs => h₁ s ((hmem hne₁.symm).1 hs), ?_, fun s hs => h₃ s ((hmem hne₂.symm).1 hs),
        fun h => h₄ fun s hs => h s ((hmem hne₂.symm).2 hs)⟩
      exact h₂.trans ⟨fun _ => .inr ⟨shape, hhead.2 rfl⟩, fun _ => .inl rfl⟩
  · subst hb64
    subst htrue
    cases hm
    constructor
    · rintro ⟨h₁, h₂, h₃, h₄⟩
      refine ⟨fun s hs => absurd hs (hnone s), ?_, fun s hs => h₃ s ((hmem hne₃.symm).2 hs),
        fun h => h₄ fun s hs => h s ((hmem hne₃.symm).1 hs)⟩
      simpa only [hmem hne₁] using h₂
    · rintro ⟨h₁, h₂, h₃, h₄⟩
      refine ⟨fun s hs => hhead.1 hs, ?_, fun s hs => h₃ s ((hmem hne₃.symm).1 hs),
        fun h => h₄ fun s hs => h s ((hmem hne₃.symm).2 hs)⟩
      simpa only [hmem hne₁] using h₂
  · cases hm
    have halg' : algName ≠ name := fun h => halg h.symm
    have hcrit' : critName ≠ name := fun h => hcrit h.symm
    have hb64' : b64Name ≠ name := fun h => hb64 h.symm
    constructor
    · rintro ⟨h₁, h₂, h₃, h₄⟩
      exact ⟨by simpa only [hmem hb64'] using h₁, by simpa only [hmem hcrit'] using h₂,
        by simpa only [hmem halg'] using h₃, by simpa only [hmem halg'] using h₄⟩
    · rintro ⟨h₁, h₂, h₃, h₄⟩
      exact ⟨by simpa only [hmem hb64'] using h₁, by simpa only [hmem hcrit'] using h₂,
        by simpa only [hmem halg'] using h₃, by simpa only [hmem halg'] using h₄⟩
  · obtain rfl := not_not.1 halg
    have hdigest : scan.digest = none := by simpa using hseen
    cases shape with
    | string alg =>
      dsimp only at hm
      split_ifs at hm with hpin
      obtain ⟨digest, hkind, rfl⟩ := Option.map_eq_some_iff.1 hm
      have hpins : ∀ p ∈ pin, alg = p := by
        rintro p rfl
        simpa using hpin
      constructor
      · rintro ⟨h₁, h₂, h₃, h₄⟩
        refine ⟨fun s hs => h₁ s ((hmem hne₃).2 hs), ?_, fun s hs => absurd hs (hnone s), fun _ => ?_⟩
        · simpa only [hmem hne₂] using h₂
        · obtain ⟨-, alg', halg', -, -, hdigest'⟩ := h₃ _ (hhead.2 rfl)
          cases halg'
          rw [hdigest', hkind]
      · rintro ⟨h₁, h₂, h₃, h₄⟩
        refine ⟨fun s hs => h₁ s ((hmem hne₃).1 hs), ?_, ?_, fun h => absurd (hhead.2 rfl) (h _)⟩
        · simpa only [hmem hne₂] using h₂
        · intro s hs
          refine ⟨hdigest, alg, hhead.1 hs, hpins, by rw [hkind]; rfl, ?_⟩
          rw [h₄ hnone, hkind]
    | null => cases hm
    | boolean => cases hm
    | number => cases hm
    | array => cases hm
    | object => cases hm

lemma scanMember_none (h : scanMember pin scan m = none) : ¬ Scanned pin (m :: ms) scan scan' := by
  obtain ⟨name, shape⟩ := m
  rintro ⟨h₁, -, h₃, -⟩
  rw [scanMember] at h
  split_ifs at h with hcrit hb64 htrue halg hseen
  · subst hb64
    exact htrue (h₁ shape List.mem_cons_self)
  · obtain rfl := not_not.1 halg
    rw [(h₃ shape List.mem_cons_self).1] at hseen
    cases hseen
  · obtain rfl := not_not.1 halg
    obtain ⟨-, alg, rfl, hpin, hkind, -⟩ := h₃ shape List.mem_cons_self
    dsimp only at h
    split_ifs at h with hother
    · obtain ⟨p, rfl, hp⟩ := (Option.any_eq_true _ _).1 hother
      exact absurd (hpin p rfl) (by simpa using hp)
    · rw [Option.map_eq_none_iff] at h
      rw [h] at hkind
      cases hkind

lemma foldlM_scanMember (hnodup : (ms.map Prod.fst).Nodup) :
    ms.foldlM (scanMember pin) scan = some scan' ↔ Scanned pin ms scan scan' := by
  induction ms generalizing scan with
  | nil =>
    constructor
    · intro h
      cases h
      exact ⟨by simp, by simp, by simp, fun _ => rfl⟩
    · rintro ⟨-, hcrit, -, hnone⟩
      obtain ⟨c, g⟩ := scan
      obtain ⟨c', g'⟩ := scan'
      have hg : g' = g := hnone (by simp)
      have hc : c' = c := by
        rw [Bool.eq_iff_iff]
        refine hcrit.trans ⟨fun h => h.resolve_right ?_, .inl⟩
        rintro ⟨shape, hmem⟩
        cases hmem
      rw [hg, hc]
      rfl
  | cons m ms ih =>
    rw [List.map_cons, List.nodup_cons] at hnodup
    rw [List.foldlM_cons]
    cases hm : scanMember pin scan m with
    | none => exact iff_of_false (by simp) (scanMember_none hm)
    | some scan₁ => exact (ih hnodup.2).trans (Scanned.cons hm hnodup.1).symm

end scan

/-! ## Tokens -/

def ObjectText (s : Str) (f : Forest Span) : Prop :=
  ∃ mark, ParseTree s ⟨mark, .object, f⟩ ∧ WithinLimits s (⟨mark, .object, f⟩ : Value Span)

structure HeaderMembers (pin : Option Str) (ms : List (Str × Shape)) (digest : HashAlgorithm) : Prop where
  crit : ∀ shape, (critName, shape) ∉ ms
  b64 : ∀ shape, (b64Name, shape) ∈ ms → shape = .boolean true
  alg : ∃ alg, (algName, .string alg) ∈ ms ∧ digestKind alg = some digest ∧ ∀ p ∈ pin, alg = p

lemma headerMembers_iff {pin ms digest}
    (hnodup : (ms.map Prod.fst).Nodup) : Scanned pin ms {} ⟨false, some digest⟩ ↔ HeaderMembers pin ms digest := by
  constructor
  · rintro ⟨hb64, hcrit, halg, hother⟩
    refine ⟨fun shape h => Bool.false_ne_true (hcrit.2 (.inr ⟨shape, h⟩)), hb64, ?_⟩
    by_contra hno
    have hmem : ∃ shape, (algName, shape) ∈ ms := by
      by_contra hnone
      exact absurd (hother fun shape h => hnone ⟨shape, h⟩) (by simp)
    obtain ⟨shape, hmem⟩ := hmem
    obtain ⟨-, alg, rfl, hpin, -, hdigest⟩ := halg shape hmem
    exact hno ⟨alg, hmem, hdigest.symm, hpin⟩
  · rintro ⟨hcrit, hb64, alg, hmem, hdigest, hpin⟩
    refine ⟨hb64, ?_, ?_, fun h => absurd hmem (h _)⟩
    · simp only [Bool.false_eq_true, false_or, false_iff, not_exists]
      exact hcrit
    · intro shape h
      have hsame : shape = .string alg := by
        have hpair := List.inj_on_of_nodup_map hnodup h hmem rfl
        exact (Prod.mk.inj hpair).2
      exact ⟨rfl, alg, hsame, hpin, by rw [hdigest]; rfl, hdigest.symm⟩

lemma parse_object {d : Document} {s} :
    ((d.parse s).2 = true ∧ ((d.parse s).1.nodes 0).kind = .object) ↔ ∃ f, ObjectText s f := by
  constructor
  · rintro ⟨hparse, hkind⟩
    obtain ⟨tree, htree, hlimits⟩ := (d.parse_iff s).1 hparse
    obtain ⟨hrep, -, -⟩ := Document.parse_represents hparse htree
    rw [hrep.root.kind] at hkind
    obtain ⟨mark, shape, children⟩ := tree
    cases shape with
    | object => exact ⟨children, mark, htree, hlimits⟩
    | null => cases hkind
    | boolean => cases hkind
    | number => cases hkind
    | string => cases hkind
    | array => cases hkind
  · rintro ⟨f, mark, htree, hlimits⟩
    have hparse := (d.parse_iff s).2 ⟨_, htree, hlimits⟩
    obtain ⟨hrep, -, -⟩ := Document.parse_represents hparse htree
    exact ⟨hparse, hrep.root.kind⟩

lemma ObjectText.parsed {d : Document} {s f} (hobject : ObjectText s f) :
    (d.parse s).1.Sane ∧ (d.parse s).1.Stand true f 1 ((d.parse s).1.nodes 0).child ∧ f.length ≤ (d.parse s).1.count ∧
      ((members f).map Prod.fst).Nodup := by
  obtain ⟨mark, htree, hlimits⟩ := hobject
  obtain ⟨hrep, hsane, -⟩ := Document.parse_represents ((d.parse_iff s).2 ⟨_, htree, hlimits⟩) htree
  refine ⟨hsane, (hrep.stands htree).items (show _ = container true from rfl), ?_, ?_⟩
  · rw [hrep.count]
    exact (Document.length_le_size f).trans (Nat.le_succ _)
  · rw [members_names]
    exact names_nodup hlimits.distinct

lemma scanHeader_parse {d : Document} {s f} (hobject : ObjectText s f) (pin : Option Str) (digest : HashAlgorithm) :
    scanHeader (d.parse s).1 pin (d.parse s).1.count ((d.parse s).1.nodes 0).child {} = some ⟨false, some digest⟩ ↔
      HeaderMembers pin (members f) digest := by
  obtain ⟨hsane, hstand, hturns, hnodup⟩ := hobject.parsed (d := d)
  rw [scanHeader_eq hsane hstand hturns, foldlM_scanMember hnodup, headerMembers_iff hnodup]

def signingInput (header payload : Str) : Str := base64url.encode header ++ ch '.' :: base64url.encode payload

structure SignedToken (crypto : Crypto) (token secret : Str) (pin : Option Str) (header payload : Str)
    (digest : HashAlgorithm) : Prop where
  token : token = signingInput header payload ++
    ch '.' :: base64url.encode (crypto.hmac digest secret (signingInput header payload))
  header : header.length ≤ 1024 ∧ ∃ f, ObjectText header f ∧ HeaderMembers pin (members f) digest
  secret : digestSize digest ≤ secret.length
  payload : ∃ f, ObjectText payload f

lemma objectText_ne_nil {s f} (h : ObjectText s f) : s ≠ [] := by
  rintro rfl
  have hparse := (parse_object (d := Document.blank)).2 ⟨f, h⟩
  exact Bool.false_ne_true hparse.1

lemma jwtDecodeClaims_signed {crypto token secret pin d d' payload}
    (h : jwtDecodeClaims crypto token secret pin d = some (d', payload)) :
    ∃ header digest, SignedToken crypto token secret pin header payload digest := by
  obtain ⟨-, h⟩ := Option.ite_none_left_eq_some.1 h
  obtain ⟨-, h⟩ := Option.ite_none_left_eq_some.1 h
  cases hsplit : splitToken token with
  | none =>
    rw [hsplit] at h
    cases h
  | some r =>
  obtain ⟨encodedHeader, encodedPayload, encodedSignature⟩ := r
  rw [hsplit] at h
  obtain ⟨-, h⟩ := Option.ite_none_left_eq_some.1 h
  cases hheader : b64urlDecode encodedHeader kMaxBytes with
  | none =>
    rw [hheader] at h
    cases h
  | some header =>
  rw [hheader] at h
  obtain ⟨hlength, h⟩ := Option.ite_none_left_eq_some.1 h
  dsimp only at h
  obtain ⟨hok, h⟩ := Option.ite_none_left_eq_some.1 h
  obtain ⟨hkind, h⟩ := Option.ite_none_left_eq_some.1 h
  obtain ⟨f, hobject⟩ := parse_object.1 ⟨by simpa using hok, not_not.1 hkind⟩
  cases hscan : scanHeader (d.parse header).1 pin (d.parse header).1.count ((d.parse header).1.nodes 0).child {} with
  | none =>
    rw [hscan] at h
    cases h
  | some scan =>
  obtain ⟨hasCrit, digest⟩ := scan
  rw [hscan] at h
  cases digest with
  | none => cases h
  | some digest =>
  dsimp only at h
  obtain ⟨hcrit, h⟩ := Option.ite_none_left_eq_some.1 h
  obtain ⟨hsecret, h⟩ := Option.ite_none_left_eq_some.1 h
  rw [Bool.not_eq_true] at hcrit
  rw [hcrit] at hscan
  cases hsignature : b64urlDecode encodedSignature kMaxHashDigestBytes with
  | none =>
    rw [hsignature] at h
    cases h
  | some signature =>
  rw [hsignature] at h
  obtain ⟨-, h⟩ := Option.ite_none_left_eq_some.1 h
  cases hmac : crypto.hmacLongKeyV1 digest (encodedHeader ++ ch '.' :: encodedPayload) secret kMaxHashDigestBytes with
  | none =>
    rw [hmac] at h
    cases h
  | some expected =>
  rw [hmac] at h
  obtain ⟨hequal, h⟩ := Option.ite_none_left_eq_some.1 h
  cases hpayload : b64urlDecode encodedPayload kMaxBytes with
  | none =>
    rw [hpayload] at h
    cases h
  | some payloadBytes =>
  rw [hpayload] at h
  obtain ⟨hok', h⟩ := Option.ite_none_left_eq_some.1 h
  obtain ⟨hkind', h⟩ := Option.ite_none_left_eq_some.1 h
  cases h
  obtain ⟨rfl, -⟩ := b64urlDecode_iff.1 hheader
  obtain ⟨rfl, -⟩ := b64urlDecode_iff.1 hpayload
  obtain ⟨rfl, -⟩ := b64urlDecode_iff.1 hsignature
  obtain ⟨rfl, -⟩ := splitToken_iff.1 hsplit
  have hexpected : expected = crypto.hmac digest secret (signingInput header payload) := by
    obtain ⟨-, hmac⟩ := Option.ite_none_left_eq_some.1 hmac
    exact Crypto.digestUnbounded_of_some hmac
  refine ⟨header, digest, ?_, ⟨by omega, f, hobject, (scanHeader_parse hobject pin digest).1 hscan⟩, by omega, ?_⟩
  · rw [not_not.1 hequal, hexpected, signingInput, List.append_assoc]
    rfl
  · exact parse_object.1 ⟨by simpa using hok', not_not.1 hkind'⟩

lemma SignedToken.accepted {crypto token secret pin header payload digest} (h : SignedToken crypto token secret pin header payload digest)
    (htoken : token.length ≤ 3 * kMaxBytes) (hsecret : secret.length < 2 ^ 31) (d : Document) :
    jwtDecodeClaims crypto token secret pin d = some ((((d.parse header).1.parse payload).1), payload) := by
  obtain ⟨rfl, ⟨hlength, f, hobject, hmembers⟩, henough, g, hclaims⟩ := h
  have hmaclen := crypto.hmac_length digest secret (signingInput header payload)
  have hsize : 0 < digestSize digest ∧ digestSize digest ≤ kMaxHashDigestBytes := by cases digest <;> decide
  have hmac : crypto.hmacLongKeyV1 digest (base64url.encode header ++ ch '.' :: base64url.encode payload) secret
      kMaxHashDigestBytes = some (crypto.hmac digest secret (signingInput header payload)) := by
    rw [List.length_append, kMaxBytes] at htoken
    rw [signingInput] at htoken ⊢
    rw [Crypto.hmacLongKeyV1, if_neg (by omega), Crypto.digestUnbounded, if_neg (by omega)]
  generalize crypto.hmac digest secret (signingInput header payload) = signature at hmac hmaclen htoken ⊢
  have hsplit : splitToken (signingInput header payload ++ ch '.' :: base64url.encode signature) =
      some (base64url.encode header, base64url.encode payload, base64url.encode signature) := by
    apply splitToken_iff.2
    refine ⟨?_, not_mem_encode _, not_mem_encode _, not_mem_encode _⟩
    rw [signingInput, List.append_assoc]
    rfl
  have hpin : ¬ (pin.any fun pin => (digestKind pin).isNone) = true := by
    obtain ⟨alg, -, hkind, hpins⟩ := hmembers.alg
    cases pin with
    | none => simp
    | some p =>
      rw [← hpins p rfl]
      simp [hkind]
  have hnonempty : ¬ (base64url.encode header = [] ∨ base64url.encode payload = [] ∨ base64url.encode signature = []) := by
    rw [encode_eq_nil, encode_eq_nil, encode_eq_nil]
    rintro (rfl | rfl | rfl)
    · exact objectText_ne_nil hobject rfl
    · exact objectText_ne_nil hclaims rfl
    · rw [List.length_nil] at hmaclen
      omega
  have hheader : b64urlDecode (base64url.encode header) kMaxBytes = some header :=
    b64urlDecode_iff.2 ⟨rfl, hlength.trans (by decide)⟩
  have hsignature : b64urlDecode (base64url.encode signature) kMaxHashDigestBytes = some signature :=
    b64urlDecode_iff.2 ⟨rfl, by omega⟩
  have hpayload : b64urlDecode (base64url.encode payload) kMaxBytes = some payload := by
    obtain ⟨mark, -, hlimits⟩ := hclaims
    exact b64urlDecode_iff.2 ⟨rfl, hlimits.bytes⟩
  have hparse := (parse_object (d := d)).2 ⟨f, hobject⟩
  have hparse' := (parse_object (d := (d.parse header).1)).2 ⟨g, hclaims⟩
  have hscan := (scanHeader_parse (d := d) hobject pin digest).2 hmembers
  rw [jwtDecodeClaims, if_neg hpin, if_neg (by omega), hsplit]
  dsimp only
  rw [if_neg hnonempty, hheader]
  dsimp only
  rw [if_neg (by omega), if_neg (by simp [hparse.1]), if_neg (not_not.2 hparse.2), hscan]
  dsimp only
  rw [if_neg Bool.false_ne_true, if_neg (by omega), hsignature]
  dsimp only
  rw [if_neg (by rw [kMaxBytes] at htoken; omega), hmac]
  dsimp only
  rw [if_neg (by simp), hpayload]
  dsimp only
  rw [if_neg (by simp [hparse'.1]), if_neg (not_not.2 hparse'.2)]

/-- Exactly the signed tokens are accepted, with the payload they carry, and two accepted tokens that sign the same are
the same. -/
theorem jwtDecodeClaims_exact (crypto : Crypto) :
    (∀ (token secret : Str) (pin : Option Str) (d : Document) (payload : Str),
      token.length ≤ 3 * kMaxBytes → secret.length < 2 ^ 31 →
      ((∃ d', jwtDecodeClaims crypto token secret pin d = some (d', payload)) ↔
        ∃ header digest, SignedToken crypto token secret pin header payload digest)) ∧
    (∀ (token token' secret : Str) (pin pin' : Option Str) (d d' : Document) (header payload signature signature' : Str),
      (jwtDecodeClaims crypto token secret pin d).isSome → (jwtDecodeClaims crypto token' secret pin' d').isSome →
      splitToken token = some (header, payload, signature) → splitToken token' = some (header, payload, signature') →
      token = token') := by
  constructor
  · intro token secret pin d payload htoken hsecret
    constructor
    · rintro ⟨d', h⟩
      exact jwtDecodeClaims_signed h
    · rintro ⟨header, digest, h⟩
      exact ⟨_, h.accepted htoken hsecret d⟩
  · intro token token' secret pin pin' d d' header payload signature signature' h h' hsplit hsplit'
    obtain ⟨⟨d₁, claims⟩, h⟩ := Option.isSome_iff_exists.1 h
    obtain ⟨⟨d₁', claims'⟩, h'⟩ := Option.isSome_iff_exists.1 h'
    obtain ⟨hd, digest, hsigned⟩ := jwtDecodeClaims_signed h
    obtain ⟨hd', digest', hsigned'⟩ := jwtDecodeClaims_signed h'
    -- the parts of a signed token are those it is split into
    have hparts : ∀ {token header payload signature hd claims pin digest},
        SignedToken crypto token secret pin hd claims digest → splitToken token = some (header, payload, signature) →
        header = base64url.encode hd ∧ payload = base64url.encode claims := by
      intro token header payload signature hd claims pin digest hsigned hsplit
      have hself : splitToken token = some (base64url.encode hd, base64url.encode claims,
          base64url.encode (crypto.hmac digest secret (signingInput hd claims))) := by
        apply splitToken_iff.2
        refine ⟨?_, not_mem_encode _, not_mem_encode _, not_mem_encode _⟩
        rw [hsigned.token, signingInput, List.append_assoc]
        rfl
      rw [hself] at hsplit
      cases hsplit
      exact ⟨rfl, rfl⟩
    obtain ⟨rfl, rfl⟩ := hparts hsigned hsplit
    obtain ⟨hheader, hpayload⟩ := hparts hsigned' hsplit'
    obtain rfl := base64url.encode_inj hheader
    obtain rfl := base64url.encode_inj hpayload
    -- one header has one algorithm
    have hdigest : digest = digest' := by
      obtain ⟨-, f, ⟨mark, htree, hlimits⟩, halg⟩ := hsigned.header
      obtain ⟨-, f', ⟨mark', htree', -⟩, halg'⟩ := hsigned'.header
      have hsame := htree.unique htree'
      cases hsame
      obtain ⟨alg, hmem, hkind, -⟩ := halg.alg
      obtain ⟨alg', hmem', hkind', -⟩ := halg'.alg
      have hnodup : ((members f).map Prod.fst).Nodup := by
        rw [members_names]
        exact names_nodup hlimits.distinct
      have hpair := List.inj_on_of_nodup_map hnodup hmem hmem' rfl
      simp only [Prod.mk.injEq, Shape.string.injEq, true_and] at hpair
      rw [hpair, hkind'] at hkind
      exact (Option.some.inj hkind).symm
    rw [hsigned.token, hsigned'.token, hdigest]

def zeroCrypto : Crypto where
  hash algorithm _ := List.replicate (digestSize algorithm) 0
  hmac algorithm _ _ := List.replicate (digestSize algorithm) 0
  hash_length _ _ := List.length_replicate
  hmac_length _ _ _ := List.length_replicate

def deepHeader : Str :=
  lit ['\x7b','"','a','l','g','"',':','"','H','S','2','5','6','"',',','"','x','"',':'] ++
    List.replicate 65 (ch '[') ++ List.replicate 65 (ch ']') ++ lit ['\x7d']

/-- A short header whose values lie too deep is refused, however it is signed. -/
theorem deepHeader_refused :
    deepHeader.length ≤ 1024 ∧
    (∃ mark f, ParseTree deepHeader ⟨mark, .object, f⟩ ∧ HeaderMembers none (members f) .sha256) ∧
    (∃ f, ObjectText (lit ['\x7b','\x7d']) f) ∧
    jwtDecodeClaims zeroCrypto (signingInput deepHeader (lit ['\x7b','\x7d']) ++ ch '.' ::
      base64url.encode (zeroCrypto.hmac .sha256 (List.replicate 32 0) (signingInput deepHeader (lit ['\x7b','\x7d']))))
      (List.replicate 32 0) none Document.blank = none := by
  refine ⟨by decide +kernel, ?_, ?_, ?_⟩
  · -- a reader with more levels reads the header
    have hread : (Limits.readText ⟨deepHeader.length, kMaxNodes, true⟩ 100 deepHeader).map
        (fun tree => (tree.shape, members tree.children)) =
        some (.object, [(algName, .string (lit ['H','S','2','5','6'])), (lit ['x'], .array)]) := by decide +kernel
    obtain ⟨⟨mark, shape, f⟩, htree, hmembers⟩ := Option.map_eq_some_iff.1 hread
    simp only [Prod.mk.injEq] at hmembers
    obtain ⟨rfl, hmembers⟩ := hmembers
    refine ⟨mark, f, ((Limits.readText_iff rfl).1 htree).1, ?_⟩
    rw [hmembers]
    have hother : ∀ name, name ≠ algName → name ≠ lit ['x'] → ∀ shape : Shape,
        (name, shape) ∉ [(algName, .string (lit ['H','S','2','5','6'])), (lit ['x'], .array)] := by
      intro name halg hx shape
      simp [halg, hx]
    exact ⟨hother _ (by decide) (by decide), fun shape h => absurd h (hother _ (by decide) (by decide) shape),
      lit ['H','S','2','5','6'], List.mem_cons_self, by decide, by simp⟩
  · apply (parse_object (d := Document.blank)).1
    decide
  · apply Option.isNone_iff_eq_none.1
    decide +kernel

end Rut.Auth
