import Rut.Http.Grammar
import Rut.HttpCache.Policy

/-!
# Keys identify requests

The bytes of a key are written without escapes. No part of it contains the byte that ends it, given what the parser
lets into targets, names and values, so equal keys come from requests that agree in everything a key is made of. The
host of a key is one of these parts.
-/

namespace Rut.HttpCache

open Http

structure CacheRequest where
  request : Str
  config : UInt64
  route : UInt32
  tls : Bool
  peer : UInt32

def CacheRequest.key (q : CacheRequest) : Key := (makeKey q.request q.config q.route q.tls q.peer).2

/-- Lower-case name and value of the fields that are part of a key, in order. -/
def keyedFields (hs : List Header) : List (Str × Str) :=
  (hs.filter fun h => !ignoredKeyHeader h.name).map fun h => (lower h.name, h.value)

def valuesOf (name : Str) (hs : List Header) : List Str := (hs.filter fun h => lower h.name = name).map Header.value

/-! ## Bytes -/

lemma u32Bytes_inj {n m} (h : u32Bytes n = u32Bytes m) : n = m := by
  simp only [u32Bytes, List.cons.injEq, and_true] at h
  obtain ⟨h₀, h₁, h₂, h₃⟩ := h
  have h₀ := congrArg UInt8.toNat h₀
  have h₁ := congrArg UInt8.toNat h₁
  have h₂ := congrArg UInt8.toNat h₂
  have h₃ := congrArg UInt8.toNat h₃
  simp [Nat.shiftRight_eq_div_pow] at h₀ h₁ h₂ h₃
  apply UInt32.toNat_inj.mp
  have hn := n.toNat_lt
  have hm := m.toNat_lt
  omega

lemma versionByte_inj {v v'} (h : versionByte v = versionByte v') : v = v' := by
  cases v <;> cases v' <;> first | rfl | (revert h; decide)

lemma boolByte_inj {b b'} (h : boolByte b = boolByte b') : b = b' := by
  cases b <;> cases b' <;> first | rfl | (revert h; decide)

lemma appendAll_eq_some {ps key bytes} (h : appendAll ps key = some bytes) :
    bytes = key ++ ps.flatten ∧ (key.length ≤ kMaxKey → bytes.length ≤ kMaxKey) := by
  induction ps generalizing key with
  | nil =>
    cases h
    exact ⟨by simp, id⟩
  | cons p ps ih =>
    rw [appendAll, append] at h
    by_cases hlen : p.length > kMaxKey - key.length
    · rw [if_pos hlen] at h
      cases h
    · rw [if_neg hlen] at h
      obtain ⟨rfl, hle⟩ := ih h
      refine ⟨by simp, fun hk => hle ?_⟩
      rw [List.length_append]
      omega

/-! ## Fields -/

def fieldLine (f : Str × Str) : Str := f.1 ++ ch ':' :: (f.2 ++ [ch '\n'])

def CleanField (f : Str × Str) : Prop := ch ':' ∉ f.1 ∧ ch '\n' ∉ f.2

lemma flatten_fieldPieces (hs : List Header) :
    (hs.flatMap fieldPieces).flatten = (keyedFields hs).flatMap fieldLine := by
  induction hs with
  | nil => rfl
  | cons h hs ih =>
    rw [List.flatMap_cons, List.flatten_append, ih]
    have hpieces : (fieldPieces h).flatten = (keyedFields [h]).flatMap fieldLine := by
      unfold fieldPieces keyedFields
      by_cases hi : ignoredKeyHeader h.name = true
      · simp [hi]
      · have hsingle : ((lower h.name).map fun c => [c]).flatten = lower h.name := by
          induction lower h.name with
          | nil => rfl
          | cons c s ih => simp [ih]
        simp [hi, hsingle, fieldLine, word, lit]
    have hsplit : keyedFields (h :: hs) = keyedFields [h] ++ keyedFields hs := by
      simp only [keyedFields, ← List.map_append, ← List.filter_append, List.singleton_append]
    rw [hpieces, hsplit, List.flatMap_append]

/-- What stands in front of the first `a` and what follows it. -/
lemma append_cons_cancel {α} {a : α} {x x' z z'} (hx : a ∉ x) (hx' : a ∉ x')
    (h : x ++ a :: z = x' ++ a :: z') : x = x' ∧ z = z' := by
  induction x generalizing x' with
  | nil =>
    cases x' with
    | nil => exact ⟨rfl, (List.cons.inj h).2⟩
    | cons b x' => exact absurd (List.cons.inj h).1 (List.ne_of_not_mem_cons hx')
  | cons b x ih =>
    cases x' with
    | nil => exact absurd (List.cons.inj h).1.symm (List.ne_of_not_mem_cons hx)
    | cons c x' =>
      obtain ⟨rfl, htail⟩ := List.cons.inj h
      obtain ⟨rfl, rfl⟩ := ih (List.not_mem_of_not_mem_cons hx) (List.not_mem_of_not_mem_cons hx') htail
      exact ⟨rfl, rfl⟩

lemma flatMap_fieldLine_inj {fs gs : List (Str × Str)} (hf : ∀ f ∈ fs, CleanField f) (hg : ∀ g ∈ gs, CleanField g)
    (h : fs.flatMap fieldLine = gs.flatMap fieldLine) : fs = gs := by
  induction fs generalizing gs with
  | nil =>
    cases gs with
    | nil => rfl
    | cons g gs => simp [fieldLine] at h
  | cons f fs ih =>
    cases gs with
    | nil => simp [fieldLine] at h
    | cons g gs =>
      obtain ⟨hfn, hfv⟩ := hf f (by simp)
      obtain ⟨hgn, hgv⟩ := hg g (by simp)
      simp only [List.flatMap_cons, fieldLine, List.append_assoc, List.cons_append, List.nil_append] at h
      -- the colon ends the name, the line feed ends the value
      obtain ⟨hname, h⟩ := append_cons_cancel hfn hgn h
      obtain ⟨hvalue, h⟩ := append_cons_cancel hfv hgv h
      rw [Prod.ext hname hvalue, ih (fun f hm => hf f (by simp [hm])) (fun g hm => hg g (by simp [hm])) h]

lemma asciiLower_token {c : UInt8} (h : tableAt kTokenTable c = true) : asciiLower c ≠ ch ':' := by
  have hcolon : ∀ c, asciiLower c = ch ':' → c = ch ':' := forall_uint8 (by decide +kernel)
  intro hc
  rw [hcolon c hc, tableAt_token_colon] at h
  cases h

lemma trimOws_subset {s : Str} {b : UInt8} (h : b ∈ trimOws s) : b ∈ s :=
  (List.dropWhile_suffix _).subset ((List.rdropWhile_prefix _ _).subset h)

lemma parse_clean {b req n} (h : parse b = .complete req n) :
    ch '\n' ∉ req.path ∧ ∀ f ∈ keyedFields req.headers, CleanField f := by
  obtain ⟨fs, hg, hh⟩ := grammar_of_parse h
  refine ⟨fun hmem => ?_, ?_⟩
  · have := hg.target_uri _ hmem
    cases this
  · intro f hf
    obtain ⟨hd, hm, rfl⟩ := List.mem_map.mp hf
    have hm := List.mem_of_mem_filter hm
    rw [hh] at hm
    obtain ⟨r, hr, rfl⟩ := List.mem_map.mp hm
    refine ⟨fun hmem => ?_, fun hmem => ?_⟩
    · obtain ⟨c, hc, heq⟩ := List.mem_map.mp hmem
      exact asciiLower_token (hg.name_token r hr c hc) heq
    · have := hg.raw_value r hr _ (trimOws_subset hmem)
      cases this

/-! ## Requests -/

structure SameRequest (q q' : CacheRequest) (req req' : ParsedRequest) : Prop where
  config : q.config = q'.config
  route : q.route = q'.route
  version : req.version = req'.version
  tls : q.tls = q'.tls
  peer : q.peer = q'.peer
  target : req.path = req'.path
  fields : keyedFields req.headers = keyedFields req'.headers

lemma flatten_keyPieces (req : ParsedRequest) (route : UInt32) (tls : Bool) (peer : UInt32) :
    (keyPieces req route tls peer).flatten =
      u32Bytes route ++ [versionByte req.version] ++ [boolByte tls] ++ u32Bytes peer ++
        (req.path ++ ch '\n' :: (keyedFields req.headers).flatMap fieldLine) := by
  rw [keyPieces, List.flatten_append, flatten_fieldPieces]
  simp [word, lit]

lemma scan_hosts (hs : List Header) (st : RequestScan) :
    (hs.foldl (fun st h => scanRequestHeader h st) st).hosts = st.hosts ++ valuesOf hostName hs := by
  have hstep : ∀ (h : Header) (st : RequestScan), (scanRequestHeader h st).hosts = st.hosts ++ valuesOf hostName [h] := by
    intro h st
    have heq : eq h.name hostName = true ↔ lower h.name = hostName := httpHeaderNameEqCi_iff
    have hhost : (scanRequestHeader h st).hosts = if eq h.name hostName then st.hosts ++ [h.value] else st.hosts := by
      unfold scanRequestHeader
      split_ifs <;> rfl
    rw [hhost]
    by_cases hn : lower h.name = hostName
    · simp [valuesOf, heq.mpr hn, hn]
    · have hne : eq h.name hostName = false := Bool.eq_false_iff.mpr (heq.not.mpr hn)
      simp [valuesOf, hne, hn]
  induction hs generalizing st with
  | nil => simp [valuesOf]
  | cons h hs ih =>
    have hsplit : valuesOf hostName (h :: hs) = valuesOf hostName [h] ++ valuesOf hostName hs := by
      simp only [valuesOf, ← List.map_append, ← List.filter_append, List.singleton_append]
    rw [List.foldl_cons, ih, hstep, hsplit, List.append_assoc]

lemma valuesOf_eq {name} (hname : ∀ n, lower n = name → ignoredKeyHeader n = false) (hs : List Header) :
    valuesOf name hs = ((keyedFields hs).filter fun f => f.1 = name).map Prod.snd := by
  induction hs with
  | nil => rfl
  | cons h hs ih =>
    simp only [valuesOf, keyedFields] at ih ⊢
    by_cases hn : lower h.name = name
    · simp [hn, hname h.name hn, ih]
    · by_cases hi : ignoredKeyHeader h.name = true
      · simp [hn, hi, ih]
      · simp [hn, hi, ih]

lemma key_eligible {q : CacheRequest} (h : q.key.eligible = true) : ∃ req n, parse q.request = .complete req n ∧
      q.key.bytes = (keyPieces req q.route q.tls q.peer).flatten ∧ q.key.bytes.length ≤ kMaxKey ∧
      q.key.hash = hashBytes kHashBasis q.key.bytes ∧ q.key.config = q.config ∧
      ∃ host, valuesOf hostName req.headers = [host] ∧
        q.key.host = hashBytes kHashBasis (boolByte q.tls :: lower host) := by
  unfold CacheRequest.key makeKey at h ⊢
  cases hp : parse q.request with
  | incomplete => simp only [hp] at h; cases h
  | error => simp only [hp] at h; cases h
  | complete req n =>
    refine ⟨req, n, rfl, ?_⟩
    simp only [hp] at h ⊢
    have hhosts := scan_hosts req.headers {}
    generalize req.headers.foldl (fun st h => scanRequestHeader h st) {} = st at h hhosts ⊢
    rw [List.nil_append] at hhosts
    rw [← hhosts]
    by_cases hbad : q.config = 0 ∨ req.headers.length ≥ kMaxHeaders
    · rw [if_pos hbad] at h
      cases h
    rw [if_neg hbad] at h ⊢
    rcases hst : st.hosts with - | ⟨host, - | ⟨host', hosts⟩⟩
    · simp only [hst] at h
      cases h
    · simp only [hst] at h ⊢
      by_cases hshape : host = [] ∨ req.path.head? ≠ some (ch '/')
      · rw [if_pos hshape] at h
        cases h
      split_ifs at h ⊢ with hblocked
      cases happ : appendAll (keyPieces req q.route q.tls q.peer) [] with
      | none => simp only [happ] at h; cases h
      | some bytes =>
        obtain ⟨hbytes, hlen⟩ := appendAll_eq_some happ
        exact ⟨hbytes, hlen (Nat.zero_le _), rfl, rfl, host, rfl, rfl⟩
    · simp only [hst] at h
      cases h

lemma sameRequest_of_key {q q'} (he : q.key.eligible = true) (he' : q'.key.eligible = true)
    (hbytes : q.key.bytes = q'.key.bytes) (hconfig : q.key.config = q'.key.config) :
    ∃ req req' n n', parse q.request = .complete req n ∧ parse q'.request = .complete req' n' ∧
      SameRequest q q' req req' ∧ q.key.host = q'.key.host := by
  obtain ⟨req, n, hp, hb, -, -, hc, host, hhost, hh⟩ := key_eligible he
  obtain ⟨req', n', hp', hb', -, -, hc', host', hhost', hh'⟩ := key_eligible he'
  refine ⟨req, req', n, n', hp, hp', ?_⟩
  obtain ⟨hpath, hclean⟩ := parse_clean hp
  obtain ⟨hpath', hclean'⟩ := parse_clean hp'
  rw [hb, hb', flatten_keyPieces, flatten_keyPieces] at hbytes
  have hlen : ∀ n : UInt32, (u32Bytes n).length = 4 := fun _ => rfl
  obtain ⟨hpre, hrest⟩ := List.append_inj hbytes (by simp [hlen])
  obtain ⟨hpre, hpeer⟩ := List.append_inj hpre (by simp [hlen])
  obtain ⟨hpre, htls⟩ := List.append_inj hpre (by simp [hlen])
  obtain ⟨hroute, hversion⟩ := List.append_inj hpre (by simp [hlen])
  obtain ⟨htarget, hfields⟩ := append_cons_cancel hpath hpath' hrest
  have hsame : SameRequest q q' req req' := by
    refine ⟨?_, u32Bytes_inj hroute, versionByte_inj (List.cons.inj hversion).1, boolByte_inj (List.cons.inj htls).1,
      u32Bytes_inj hpeer, htarget, flatMap_fieldLine_inj hclean hclean' hfields⟩
    rw [← hc, ← hc', hconfig]
  refine ⟨hsame, ?_⟩
  have hhosts : valuesOf hostName req.headers = valuesOf hostName req'.headers := by
    have hkeyed : ∀ n, lower n = hostName → ignoredKeyHeader n = false := by
      intro n hn
      simp only [ignoredKeyHeader, eq, httpHeaderNameEqCi, hn]
      decide
    rw [valuesOf_eq hkeyed, valuesOf_eq hkeyed, hsame.fields]
  rw [hhost, hhost'] at hhosts
  rw [hh, hh', hsame.tls, (List.cons.inj hhosts).1]

end Rut.HttpCache
