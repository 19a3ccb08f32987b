import Rut.Conn.Pipeline
import Rut.Http.Grammar

/-!
# Target transforms of forwarded requests

Port of `include/rut/common/forward_target_transform.h` and of `materialize_request_target_transform`
(`include/rut/runtime/callbacks_impl.h`). A transform puts another prefix in the place of one of the target, in the
receive buffer: the rest of the target and what follows it are moved, in an order that depends on whether the target
shrinks or grows.
-/

set_option linter.all false
namespace Rut.Conn

open Http Lib

/-! ## Prefixes -/

structure ForwardTargetTransformSpec where
  stripPrefix : Str
  replacePrefix : Str
deriving DecidableEq

def kMaxForwardTargetTransforms : Nat := 16
def kMaxForwardTargetTransformPrefixLen : Nat := 128
def kInvalidForwardTargetTransformId : Nat := 0xffff

def isDirtyByte (c : UInt8) : Bool := c < 0x21 || c == 0x7f || c == ch '%' || c == ch '#'

/-- The loop over the bytes of a path: no byte of a kind, and no two slashes in a row. -/
def bytesClean (dirty : UInt8 → Bool) : Option UInt8 → Str → Bool
  | _, [] => true
  | before, c :: s =>
    if dirty c then false
    else if c = ch '/' ∧ before = some (ch '/') then false
    else bytesClean dirty (some c) s

def isDotSegment (s : Str) : Bool := s == lit ['.'] || s == lit ['.','.']

def segmentsClean : Str → Str → Bool
  | segment, [] => !isDotSegment segment
  | segment, c :: s =>
    if c = ch '/' then if isDotSegment segment then false else segmentsClean [] s
    else segmentsClean (segment ++ [c]) s

def forwardTargetTransformCleanPrefix (value : Str) : Bool :=
  if value = [] ∨ value.length > kMaxForwardTargetTransformPrefixLen ∨ value.head? ≠ some (ch '/') then false
  else if value.length > 1 ∧ value.getLast? ≠ some (ch '/') then false
  else if !bytesClean (fun c => isDirtyByte c || c == ch '?') none value then false
  else segmentsClean [] (value.drop 1)

def isConfiguredQueryByte (c : UInt8) : Bool :=
  (ch 'A' ≤ c && c ≤ ch 'Z') || (ch 'a' ≤ c && c ≤ ch 'z') || (ch '0' ≤ c && c ≤ ch '9') || c == ch '.' || c == ch '_' ||
    c == ch '~' || c == ch '-' || c == ch '=' || c == ch '&'

def forwardTargetTransformReplacementPrefix (value : Str) : Bool :=
  if forwardTargetTransformCleanPrefix value then true
  else if value.length < 2 ∨ value.length > kMaxForwardTargetTransformPrefixLen then false
  -- one query delimiter, no more
  else if value.count (ch '?') ≠ 1 then false
  else if !forwardTargetTransformCleanPrefix (value.takeWhile (· != ch '?')) then false
  else ((value.dropWhile (· != ch '?')).drop 1).all isConfiguredQueryByte

def forwardTargetTransformSpecValid (spec : ForwardTargetTransformSpec) : Bool :=
  forwardTargetTransformCleanPrefix spec.stripPrefix && forwardTargetTransformReplacementPrefix spec.replacePrefix

/-! ## The transform -/

structure TargetConn (cap : Nat) where
  recvBuf : Buffer cap
  /-- The receive buffer lies in the receive slice. -/
  recvBufBound : Bool
  reqHeaderEnd : Nat
  reqInitialSendLen : Nat
  targetTransformRecorded : Bool
  targetTransformId : Nat
  http2 : Bool
  tlsActive : Bool
  reqPathOverridden : Bool
  reqHttp11 : Bool
  reqHead : Bool
  reqBodyMode : BodyMode
  reqBodyRemaining : Nat
  requestBodyFullyBuffered : Bool
  reqMalformed : Bool
  reqWantsUpgrade : Bool
  reqHeaderOverrideCount : Nat
  reqHeaderOverrideOverflow : Bool
  respHeaderMutationCount : Nat
  respHeaderMutationPendingCount : Nat
  respHeaderMutationPendingOverflow : Bool
  respHeaderMutationOverflow : Bool
  responseMutationsSnapshotted : Bool
  retryReqSnapshotReplayable : Bool
  /-- Episode, offset and length of the raw target. -/
  rawTargetWitness : Nat × Nat × Nat

/-- The transforms of a configuration (`RouteConfig::target_transforms`). -/
abbrev Transforms := List ForwardTargetTransformSpec

def targetTransformIdIsValid (config : Transforms) (id : Nat) : Bool :=
  id ≠ 0 && id ≠ kInvalidForwardTargetTransformId && config.length ≤ kMaxForwardTargetTransforms && id ≤ config.length &&
    (config[id - 1]?).any forwardTargetTransformSpecValid

namespace TargetConn

variable {cap : Nat}

def admits (c : TargetConn cap) (config : Transforms) : Bool :=
  targetTransformIdIsValid config c.targetTransformId && !c.http2 && !c.tlsActive && !c.reqPathOverridden && c.reqHttp11 &&
    !c.reqHead && c.reqBodyMode = .none && c.reqBodyRemaining = 0 && !c.requestBodyFullyBuffered && !c.reqMalformed &&
    !c.reqWantsUpgrade && c.reqHeaderOverrideCount = 0 && !c.reqHeaderOverrideOverflow && c.respHeaderMutationCount = 0 &&
    c.respHeaderMutationPendingCount = 0 && !c.respHeaderMutationPendingOverflow && !c.respHeaderMutationOverflow &&
    c.recvBufBound && c.recvBuf.len ≠ 0

def teName : Str := lit ['t','e']
def expectName : Str := lit ['e','x','p','e','c','t']

def headAdmits (c : TargetConn cap) (req : ParsedRequest) (headerEnd : Nat) : Bool :=
  !req.hasContentLength && !req.chunked && !req.upgrade && !req.hasUpgradeHeader && headerEnd = c.reqHeaderEnd &&
    c.reqInitialSendLen = headerEnd &&
    !(req.headers.any fun h =>
      lower h.name = transferEncodingName || lower h.name = teName || lower h.name = expectName) &&
    req.version = .http11

def pathPart (target : Str) : Str := target.takeWhile (· != ch '?')

def targetAdmits (target : Str) : Bool :=
  target.head? = some (ch '/') && !target.any (· == ch '#') && pathPart target ≠ [] &&
    bytesClean isDirtyByte none (pathPart target) && segmentsClean [] ((pathPart target).drop 1)

/-- The moves: the rest of the target and what follows it, the replacement, and the new length. -/
def rewrite (b : Buffer cap) (spec : ForwardTargetTransformSpec) (targetStart targetLen : Nat) : Option (Buffer cap) :=
  let restLen := targetLen - spec.stripPrefix.length
  let newTargetLen := spec.replacePrefix.length + restLen
  let delta : Int := newTargetLen - targetLen
  let finalTotal : Int := b.len + delta
  let targetEnd := targetStart + targetLen
  let newTargetEnd := targetStart + newTargetLen
  let suffixStart := targetStart + spec.stripPrefix.length
  let suffixDest := targetStart + spec.replacePrefix.length
  let moved :=
    if delta < 0 then
      let b := b.store suffixDest (b.load suffixStart restLen)
      b.store newTargetEnd (b.load targetEnd (b.len - targetEnd))
    else
      let b := b.store (targetEnd + delta).toNat (b.load targetEnd (b.len - targetEnd))
      b.store suffixDest (b.load suffixStart restLen)
  (moved.store targetStart spec.replacePrefix).setLen finalTotal.toNat

/-- The connection after the moves: its offsets are shifted, and the transform is done with. -/
def moved (c : TargetConn cap) (b : Buffer cap) (delta : Int) : TargetConn cap :=
  { c with
    rawTargetWitness := (0, 0, 0)
    recvBuf := b
    reqHeaderEnd := ((c.reqHeaderEnd : Int) + delta).toNat
    reqInitialSendLen := ((c.reqInitialSendLen : Int) + delta).toNat
    retryReqSnapshotReplayable := c.retryReqSnapshotReplayable && !c.responseMutationsSnapshotted
    targetTransformRecorded := false
    targetTransformId := 0 }

def materializeRequestTargetTransform (c : TargetConn cap) (config : Transforms) : Bool × TargetConn cap :=
  if !c.targetTransformRecorded then (true, c)
  else if !c.admits config then (false, c)
  else
    match parse c.recvBuf.bytes, config[c.targetTransformId - 1]? with
    | .complete req headerEnd, some spec =>
      if !c.headAdmits req headerEnd || !targetAdmits req.path then (false, c)
      else if !forwardTargetTransformSpecValid spec || !spec.stripPrefix.isPrefixOf (pathPart req.path) then (false, c)
      else
        let targetLen := req.path.length
        let newTargetLen := spec.replacePrefix.length + (targetLen - spec.stripPrefix.length)
        let delta : Int := newTargetLen - targetLen
        let finalTotal : Int := c.recvBuf.len + delta
        if newTargetLen > 0xffffffff ∨ finalTotal < 0 ∨ finalTotal.toNat > cap then (false, c)
        else
          match rewrite c.recvBuf spec req.method.bytes.length targetLen with
          | none => (false, c)
          | some b => (true, c.moved b delta)
    | _, _ => (false, c)

end TargetConn

/-! ## Clean paths -/

/-- A path that starts with a slash and has no empty inner segment, no dot segment, no percent sign and no number sign. -/
structure CleanPath (p : Str) : Prop where
  slash : p.head? = some (ch '/')
  inner : ∀ s ∈ (p.splitOn (ch '/')).tail.dropLast, s ≠ []
  dots : ∀ s ∈ p.splitOn (ch '/'), s ≠ lit ['.'] ∧ s ≠ lit ['.','.']
  percent : ch '%' ∉ p
  hash : ch '#' ∉ p

section loops
variable {dirty : UInt8 → Bool} {before : Option UInt8} {x y segment s : Str}

lemma bytesClean_append : bytesClean dirty before (x ++ y) = true ↔
      bytesClean dirty before x = true ∧ bytesClean dirty (x.getLast?.or before) y = true := by
  induction x generalizing before with
  | nil => simp [bytesClean]
  | cons c x ih =>
    rw [List.cons_append, bytesClean, bytesClean]
    split_ifs
    · simp
    · simp
    · rw [ih]
      cases x with
      | nil => simp
      | cons d x =>
        rfl

lemma bytesClean_mem (h : bytesClean dirty before s = true) : ∀ c ∈ s, dirty c = false := by
  induction s generalizing before with
  | nil => simp
  | cons c s ih =>
    rw [bytesClean] at h
    split_ifs at h with hc hslash
    intro b hb
    obtain rfl | hb := List.mem_cons.1 hb
    · exact Bool.eq_false_iff.2 hc
    · exact ih h b hb

lemma bytesClean_mono {dirty'} (hd : ∀ c ∈ s, dirty' c = true → dirty c = true)
    (h : bytesClean dirty before s = true) : bytesClean dirty' before s = true := by
  induction s generalizing before with
  | nil => rfl
  | cons c s ih =>
    rw [bytesClean] at h ⊢
    split_ifs at h with hc hslash
    rw [if_neg fun hc' => hc (hd c List.mem_cons_self hc'), if_neg hslash]
    exact ih (fun c hc => hd c (List.mem_cons_of_mem _ hc)) h

lemma segmentsClean_append (x y : Str) :
    segmentsClean segment (x ++ ch '/' :: y) = true ↔ segmentsClean segment x = true ∧ segmentsClean [] y = true := by
  induction x generalizing segment with
  | nil =>
    simp only [List.nil_append, segmentsClean, ↓reduceIte]
    cases isDotSegment segment <;> simp
  | cons c x ih =>
    rw [List.cons_append, segmentsClean, segmentsClean]
    split_ifs
    · simp
    · exact ih
    · exact ih

lemma splitOn_slash_cons (s : Str) : (ch '/' :: s).splitOn (ch '/') = [] :: s.splitOn (ch '/') := by
  rfl

lemma splitOn_other_cons {c} (hc : c ≠ ch '/') (s : Str) :
    (c :: s).splitOn (ch '/') = (s.splitOn (ch '/')).modifyHead (c :: ·) := by
  rw [List.splitOn, List.splitOnP_cons_eq_if_modifyHead, if_neg (by simpa using hc)]
  rfl

lemma segmentsClean_iff (hsegment : ch '/' ∉ segment) :
    segmentsClean segment s = true ↔ ∀ t ∈ (s.splitOn (ch '/')).modifyHead (segment ++ ·), isDotSegment t = false := by
  induction s generalizing segment with
  | nil => simp [segmentsClean, List.splitOn, List.splitOnP_nil]
  | cons c s ih =>
    rw [segmentsClean]
    by_cases hc : c = ch '/'
    · rw [if_pos hc, hc, splitOn_slash_cons]
      have ih := @ih [] (by simp)
      have hnil : (s.splitOn (ch '/')).modifyHead ([] ++ ·) = s.splitOn (ch '/') := by
        cases s.splitOn (ch '/') <;> rfl
      rw [hnil] at ih
      cases hdot : isDotSegment segment <;> simp [hdot, ih]
    · rw [if_neg hc, splitOn_other_cons hc, ih (by simp [hsegment, Ne.symm hc])]
      cases s.splitOn (ch '/') <;> simp

lemma inner_segments (h : bytesClean dirty before s = true) :
    (before = some (ch '/') → ∀ t ∈ (s.splitOn (ch '/')).dropLast, t ≠ []) ∧
      ∀ t ∈ (s.splitOn (ch '/')).dropLast.tail, t ≠ [] := by
  induction s generalizing before with
  | nil => simp [List.splitOn, List.splitOnP_nil]
  | cons c s ih =>
    rw [bytesClean] at h
    split_ifs at h with hdirty hslash
    obtain ⟨hbehind, hinner⟩ := ih h
    have hne : s.splitOn (ch '/') ≠ [] := List.splitOnP_ne_nil _ _
    by_cases hc : c = ch '/'
    · subst hc
      rw [splitOn_slash_cons, List.dropLast_cons_of_ne_nil hne, List.tail_cons]
      exact ⟨fun hb => absurd ⟨rfl, hb⟩ hslash, hbehind rfl⟩
    · rw [splitOn_other_cons hc]
      obtain ⟨t, ts, hts⟩ := List.exists_cons_of_ne_nil hne
      rw [hts] at hinner ⊢
      cases ts with
      | nil => simp
      | cons u us =>
        refine ⟨fun _ v hv => ?_, hinner⟩
        obtain rfl | hv := List.mem_cons.1 hv
        · simp
        · exact hinner v hv

end loops

lemma cleanPath_of_loops {p} (hslash : p.head? = some (ch '/')) (hbytes : bytesClean isDirtyByte none p = true)
    (hsegments : segmentsClean [] (p.drop 1) = true) : CleanPath p := by
  obtain ⟨s, rfl⟩ : ∃ s, p = ch '/' :: s := by
    cases p with
    | nil => cases hslash
    | cons c s => exact ⟨s, by rw [Option.some.inj hslash]⟩
  have hdirty := bytesClean_mem hbytes
  rw [List.drop_one, List.tail_cons, segmentsClean_iff (by simp)] at hsegments
  have hnil : (s.splitOn (ch '/')).modifyHead ([] ++ ·) = s.splitOn (ch '/') := by cases s.splitOn (ch '/') <;> rfl
  rw [hnil] at hsegments
  rw [bytesClean, if_neg (by decide), if_neg (by simp)] at hbytes
  refine ⟨rfl, ?_, ?_, ?_, ?_⟩
  · rw [splitOn_slash_cons, List.tail_cons]
    exact (inner_segments hbytes).1 rfl
  · intro t ht
    obtain rfl | ht := List.mem_cons.1 ht
    · decide
    · have hdot := hsegments t ht
      rw [isDotSegment, Bool.or_eq_false_iff, beq_eq_false_iff_ne, beq_eq_false_iff_ne] at hdot
      exact hdot
  · exact fun h => absurd (hdirty _ h) (by decide)
  · exact fun h => absurd (hdirty _ h) (by decide)

structure CleanPrefix (v : Str) : Prop where
  slash : v.head? = some (ch '/')
  ends : ∃ x, v = x ++ [ch '/']
  bytes : bytesClean isDirtyByte none v = true
  segments : segmentsClean [] (v.drop 1) = true
  query : ch '?' ∉ v

lemma cleanPrefix_of {v} (h : forwardTargetTransformCleanPrefix v = true) : CleanPrefix v := by
  rw [forwardTargetTransformCleanPrefix] at h
  split_ifs at h with hshape hlast hbytes
  obtain ⟨hne, -, hslash⟩ : v ≠ [] ∧ ¬ v.length > kMaxForwardTargetTransformPrefixLen ∧ ¬ v.head? ≠ some (ch '/') := by
    simpa [not_or] using hshape
  have hbytes : bytesClean (fun c => isDirtyByte c || c == ch '?') none v = true := by simpa using hbytes
  refine ⟨not_not.1 hslash, ?_, bytesClean_mono (by simp +contextual) hbytes, h, ?_⟩
  · obtain ⟨x, c, rfl⟩ := (List.eq_nil_or_concat' v).resolve_left hne
    refine ⟨x, ?_⟩
    cases x with
    | nil =>
      rw [Option.some.inj (not_not.1 hslash)]
    | cons d x =>
      have hlast : ((d :: x) ++ [c]).getLast? = some (ch '/') := not_not.1 fun hne' => hlast ⟨by simp, hne'⟩
      rw [List.getLast?_concat] at hlast
      rw [Option.some.inj hlast]
  · intro hquery
    have hdirty := bytesClean_mem hbytes _ hquery
    simp at hdirty

lemma replacement_parts {v} (h : forwardTargetTransformReplacementPrefix v = true) :
    ∃ path query, v = path ++ query ∧ CleanPrefix path ∧
      (query = [] ∨ ∃ q, query = ch '?' :: q ∧ ∀ c ∈ q, isConfiguredQueryByte c = true) := by
  rw [forwardTargetTransformReplacementPrefix] at h
  split_ifs at h with hclean hshort hcount hpath
  · exact ⟨v, [], (List.append_nil v).symm, cleanPrefix_of hclean, .inl rfl⟩
  · refine ⟨v.takeWhile (· != ch '?'), v.dropWhile (· != ch '?'), (List.takeWhile_append_dropWhile ..).symm,
      cleanPrefix_of (by simpa using hpath), ?_⟩
    cases hquery : v.dropWhile (· != ch '?') with
    | nil => exact .inl rfl
    | cons c q =>
      have hc : c = ch '?' := by
        have hhead := List.head?_dropWhile_not (p := (· != ch '?')) (l := v)
        rw [hquery] at hhead
        simpa using hhead
      rw [hquery, List.drop_one, List.tail_cons, List.all_eq_true] at h
      exact .inr ⟨q, by rw [hc], h⟩

namespace CleanPrefix

variable {v y : Str}

lemma bytes_append (h : CleanPrefix v) :
    bytesClean isDirtyByte none (v ++ y) = true ↔ bytesClean isDirtyByte (some (ch '/')) y = true := by
  obtain ⟨x, hx⟩ := h.ends
  have hlast : v.getLast?.or none = some (ch '/') := by rw [hx, List.getLast?_append_of_ne_nil _ (by simp)]; rfl
  rw [bytesClean_append, hlast]
  exact and_iff_right h.bytes

lemma segments_append (h : CleanPrefix v) : segmentsClean [] ((v ++ y).drop 1) = true ↔ segmentsClean [] y = true := by
  obtain ⟨x, hx⟩ := h.ends
  have hsegments := h.segments
  subst hx
  cases x with
  | nil => rfl
  | cons c x =>
    rw [List.append_assoc, List.cons_append, List.drop_one, List.tail_cons, List.singleton_append, segmentsClean_append]
    rw [List.cons_append, List.drop_one, List.tail_cons, segmentsClean_append] at hsegments
    exact and_iff_right hsegments.1

end CleanPrefix

open TargetConn in
lemma cleanPath_replaced {stripped replacement target} (hstrip : CleanPrefix stripped)
    (hreplace : forwardTargetTransformReplacementPrefix replacement = true) (htarget : targetAdmits target = true)
    (hstarts : stripped <+: pathPart target) : CleanPath (pathPart (replacement ++ target.drop stripped.length)) := by
  obtain ⟨path, query, rfl, hpath, hquery⟩ := replacement_parts hreplace
  have hquestion : ∀ {v : Str}, ch '?' ∉ v → ∀ c ∈ v, (c != ch '?') = true := by
    intro v hv c hc
    rw [bne_iff_ne]
    rintro rfl
    exact hv hc
  have hslash : ∀ y, (path ++ y).head? = some (ch '/') := by
    intro y
    rw [List.head?_append, hpath.slash]
    rfl
  obtain rfl | ⟨q, rfl, -⟩ := hquery
  · -- the rest of the path follows the replacement
    simp only [targetAdmits, Bool.and_eq_true, decide_eq_true_eq] at htarget
    obtain ⟨⟨-, hbytes⟩, hsegments⟩ := htarget
    obtain ⟨rest, hrest⟩ := hstarts
    have htarget : target = stripped ++ target.drop stripped.length := by
      have hle : stripped <+: target := ⟨rest ++ target.dropWhile (· != ch '?'), by
        rw [← List.append_assoc, hrest, pathPart, List.takeWhile_append_dropWhile]⟩
      rw [List.prefix_iff_eq_append.1 hle]
    have hpart : pathPart target = stripped ++ pathPart (target.drop stripped.length) := by
      rw [htarget, pathPart, List.takeWhile_append_of_pos (hquestion hstrip.query), ← htarget]
      rfl
    rw [hpart, hstrip.bytes_append] at hbytes
    rw [hpart, hstrip.segments_append] at hsegments
    rw [List.append_nil, pathPart, List.takeWhile_append_of_pos (hquestion hpath.query)]
    exact cleanPath_of_loops (hslash _) (hpath.bytes_append.2 hbytes) (hpath.segments_append.2 hsegments)
  · rw [pathPart, List.append_assoc, List.takeWhile_append_of_pos (hquestion hpath.query), List.cons_append,
      List.takeWhile_cons_of_neg (by simp), List.append_nil]
    exact cleanPath_of_loops hpath.slash hpath.bytes hpath.segments

/-! ## The bytes -/

section rewrite
variable {cap : Nat} {b : Buffer cap} {spec : ForwardTargetTransformSpec} {front target rest : Str}

lemma load_parts {x y z} (h : b.bytes = x ++ y ++ z) : Memory.read b.mem x.length y.length = y := by
  have hlen : b.len = x.length + (y.length + z.length) := by
    have hlength := congrArg List.length h
    rw [Buffer.length_bytes, List.length_append, List.length_append] at hlength
    omega
  rw [Buffer.bytes, hlen, Memory.read_add, Memory.read_add, List.append_assoc, Nat.zero_add] at h
  obtain ⟨-, h⟩ := List.append_inj h (Memory.length_read ..)
  exact (List.append_inj h (Memory.length_read ..)).1

lemma setLen_replaced {m : Buffer cap} {replacement tail : Str} {n}
    (hn : n = front.length + (replacement.length + (tail.length + rest.length))) (hcap : n ≤ cap)
    (hfront : Memory.read m.mem 0 front.length = front)
    (htail : Memory.read m.mem (front.length + replacement.length) tail.length = tail)
    (hrest : Memory.read m.mem (front.length + replacement.length + tail.length) rest.length = rest) :
    ∃ b', (m.store front.length replacement).setLen n = some b' ∧ b'.bytes = front ++ (replacement ++ tail) ++ rest := by
  refine ⟨_, dif_pos hcap, ?_⟩
  change Memory.read (Memory.write m.mem front.length replacement) 0 n = _
  rw [hn, Memory.read_add, Memory.read_add, Memory.read_add, Nat.zero_add, Memory.read_write,
    Memory.read_write_of_le (by omega), Memory.read_write_of_ge le_rfl, Memory.read_write_of_ge (by omega), hfront, htail,
    hrest]
  simp only [List.append_assoc]

open TargetConn in
lemma rewrite_bytes (hbytes : b.bytes = front ++ target ++ rest) (hstrip : spec.stripPrefix <+: target)
    (hroom : b.len + spec.replacePrefix.length ≤ cap + spec.stripPrefix.length) :
    ∃ b', rewrite b spec front.length target.length = some b' ∧
      b'.bytes = front ++ (spec.replacePrefix ++ target.drop spec.stripPrefix.length) ++ rest := by
  obtain ⟨tail, rfl⟩ := hstrip
  obtain ⟨stripped, replacement⟩ := spec
  dsimp only at hroom ⊢
  rw [List.drop_left]
  have hlen : b.len = front.length + (stripped.length + tail.length) + rest.length := by
    rw [← Buffer.length_bytes, hbytes]
    simp only [List.length_append]
  have hfront : Memory.read b.mem 0 front.length = front := by
    have hread := load_parts (x := []) (y := front) (z := stripped ++ tail ++ rest) (by rw [hbytes]; simp)
    exact hread
  have htail : Memory.read b.mem (front.length + stripped.length) tail.length = tail := by
    have hread := load_parts (x := front ++ stripped) (y := tail) (z := rest) (by rw [hbytes]; simp)
    rwa [List.length_append] at hread
  have hrest : Memory.read b.mem (front.length + (stripped.length + tail.length)) rest.length = rest := by
    have hread := load_parts (x := front ++ stripped ++ tail) (y := rest) (z := []) (by rw [hbytes]; simp)
    rwa [List.length_append, List.length_append, Nat.add_assoc] at hread
  have hleft : b.len - (front.length + (stripped.length + tail.length)) = rest.length := by omega
  rw [rewrite]
  simp only [List.length_append, Nat.add_sub_cancel_left, Buffer.len_store, hleft]
  split_ifs with hshrink
  · -- the target shrinks: first its rest moves down, then what follows it
    apply setLen_replaced (by omega) (by omega)
    · change Memory.read (Memory.write (Memory.write b.mem _ _) _ _) 0 front.length = front
      rw [Memory.read_write_of_le (by omega), Memory.read_write_of_le (by omega), hfront]
    · change Memory.read (Memory.write (Memory.write b.mem _ (Memory.read b.mem _ _)) _ _) _ _ = tail
      rw [Memory.read_write_of_le (by omega), htail, Memory.read_write]
    · change Memory.read (Memory.write (Memory.write b.mem _ (Memory.read b.mem _ _)) _
        (Memory.read (Memory.write b.mem _ (Memory.read b.mem _ _)) _ _)) _ _ = rest
      have hkept := @Memory.read_write_of_ge _ b.mem (front.length + replacement.length)
        (front.length + (stripped.length + tail.length)) rest.length tail (by omega)
      rw [htail, hkept, hrest, Nat.add_assoc front.length, Memory.read_write]
  · -- the target grows: first what follows it moves up, then its rest
    have hdest : ((front.length + (stripped.length + tail.length) : Nat) +
        (((replacement.length + tail.length : Nat) : Int) - (stripped.length + tail.length : Nat))).toNat =
        front.length + replacement.length + tail.length := by omega
    rw [hdest]
    apply setLen_replaced (by omega) (by omega)
    · change Memory.read (Memory.write (Memory.write b.mem _ _) _ _) 0 front.length = front
      rw [Memory.read_write_of_le (by omega), Memory.read_write_of_le (by omega), hfront]
    · change Memory.read (Memory.write (Memory.write b.mem _ (Memory.read b.mem _ _)) _
        (Memory.read (Memory.write b.mem _ (Memory.read b.mem _ _)) _ _)) _ _ = tail
      have hkept := @Memory.read_write_of_le _ b.mem (front.length + replacement.length + tail.length)
        (front.length + stripped.length) tail.length rest (by omega)
      rw [hrest, hkept, htail, Memory.read_write]
    · change Memory.read (Memory.write (Memory.write b.mem _ (Memory.read b.mem _ _)) _
        (Memory.read (Memory.write b.mem _ (Memory.read b.mem _ _)) _ _)) _ _ = rest
      have hkept := @Memory.read_write_of_le _ b.mem (front.length + replacement.length + tail.length)
        (front.length + stripped.length) tail.length rest (by omega)
      rw [hrest, hkept, htail, Memory.read_write_of_ge le_rfl, Memory.read_write]

end rewrite

/-! ## The new head -/

lemma uri_of_clean : ∀ c : UInt8, isDirtyByte c = false → c < 0x80 → tableAt kUriTable c = true := by
  simp only [tableAt_uri]
  exact forall_uint8 (by decide +kernel)

lemma uri_of_query : ∀ c : UInt8, isConfiguredQueryByte c = true → tableAt kUriTable c = true := by
  simp only [tableAt_uri]
  exact forall_uint8 (by decide +kernel)

lemma replacement_uri {v} (h : forwardTargetTransformReplacementPrefix v = true) (hascii : ∀ c ∈ v, c < 0x80) :
    ∀ c ∈ v, tableAt kUriTable c = true := by
  obtain ⟨path, query, rfl, hpath, hquery⟩ := replacement_parts h
  intro c hc
  obtain hc' | hc' := List.mem_append.1 hc
  · exact uri_of_clean c (bytesClean_mem hpath.bytes c hc') (hascii c hc)
  · obtain rfl | ⟨q, rfl, hq⟩ := hquery
    · cases hc'
    · obtain rfl | hc' := List.mem_cons.1 hc'
      · decide
      · exact uri_of_query c (hq c hc')

lemma replacement_ne_nil {v} (h : forwardTargetTransformReplacementPrefix v = true) : v ≠ [] := by
  obtain ⟨path, query, rfl, hpath, -⟩ := replacement_parts h
  intro hnil
  rw [(List.append_eq_nil_iff.1 hnil).1] at hpath
  cases hpath.slash

lemma parse_retarget {b req h} (hp : parse b = .complete req h) :
    ∃ rest, b = req.method.bytes ++ req.path ++ rest ∧ req.path.length ≤ h ∧
      (∀ c ∈ req.path, tableAt kUriTable c = true) ∧ ∀ target, target ≠ [] →
        (∀ c ∈ target, tableAt kUriTable c = true) →
        ∃ req', parse (req.method.bytes ++ target ++ rest) = .complete req' (h + target.length - req.path.length) ∧
          req'.path = target ∧ req'.headers = req.headers := by
  obtain ⟨fs, hg, hheaders⟩ := grammar_of_parse hp
  have hle : h ≤ b.length := by
    obtain ⟨rest, -, -, rfl⟩ := parse_complete_iff.mp hp
    exact Nat.sub_le _ _
  obtain ⟨fields, hfields⟩ : ∃ fields, fields =
      ch ' ' :: req.version.bytes ++ fs.flatMap RawField.bytes ++ [ch '\r', ch '\n'] := ⟨_, rfl⟩
  have hhead : ∀ target, headBytes req.method target req.version fs = req.method.bytes ++ target ++ fields := by
    intro target
    rw [headBytes, hfields]
    simp only [List.append_assoc, List.cons_append]
  have htake : b.take h = req.method.bytes ++ req.path ++ fields := hg.bytes.trans (hhead _)
  have hlen : h = req.method.bytes.length + req.path.length + fields.length := by
    have hlength := congrArg List.length htake
    rw [List.length_take_of_le hle] at hlength
    rw [hlength, List.length_append, List.length_append]
  refine ⟨fields ++ b.drop h, ?_, by omega, hg.target_uri, fun target hne huri => ?_⟩
  · rw [← List.append_assoc, ← htake, List.take_append_drop]
  · have hend : (headBytes req.method target req.version fs).length = h + target.length - req.path.length := by
      rw [hhead, List.length_append, List.length_append, hlen]
      omega
    have hbytes : req.method.bytes ++ target ++ (fields ++ b.drop h) =
        headBytes req.method target req.version fs ++ b.drop h := by rw [hhead, List.append_assoc _ fields]
    rw [hbytes, ← hend]
    obtain ⟨req', hp', -, hpath, -, hheaders'⟩ := @parse_of_grammar
      (headBytes req.method target req.version fs ++ b.drop h) (headBytes req.method target req.version fs).length
      req.method target req.version fs (by simp)
      ⟨List.take_left, hne, huri, hg.count, hg.name_ne, hg.name_token, hg.raw_value, hg.lengths, hg.framing⟩
    exact ⟨req', hp', hpath, hheaders'.trans hheaders.symm⟩

namespace TargetConn

variable {cap : Nat}

def newTarget (spec : ForwardTargetTransformSpec) (target : Str) : Str :=
  spec.replacePrefix ++ target.drop spec.stripPrefix.length

/-- The request of a connection with its target transformed, and the rest where it was or shifted. -/
structure Transformed (spec : ForwardTargetTransformSpec) (req : ParsedRequest) (c c' : TargetConn cap) : Prop where
  starts : spec.stripPrefix <+: pathPart req.path
  bytes : ∃ rest, c.recvBuf.bytes = req.method.bytes ++ req.path ++ rest ∧
    c'.recvBuf.bytes = req.method.bytes ++ newTarget spec req.path ++ rest
  headerEnd : (c'.reqHeaderEnd : Int) - c.reqHeaderEnd = (newTarget spec req.path).length - req.path.length
  initialSendLen : (c'.reqInitialSendLen : Int) - c.reqInitialSendLen =
    (newTarget spec req.path).length - req.path.length
  clean : CleanPath (pathPart (newTarget spec req.path))
  /-- Bytes of a replacement that are not ASCII are configured, but the parser takes none. -/
  parsed : (∀ b ∈ spec.replacePrefix, b < 0x80) → ∃ req', parse c'.recvBuf.bytes = .complete req' c'.reqHeaderEnd ∧
    req'.path = newTarget spec req.path ∧ req'.headers = req.headers

lemma length_newTarget (spec : ForwardTargetTransformSpec) (target : Str) :
    (newTarget spec target).length = spec.replacePrefix.length + (target.length - spec.stripPrefix.length) := by
  rw [newTarget, List.length_append, List.length_drop]

lemma pathPart_starts (target : Str) : pathPart target <+: target := List.takeWhile_prefix _

lemma materialize_cases (c : TargetConn cap) (config : Transforms) :
    (c.targetTransformRecorded = false ∧ c.materializeRequestTargetTransform config = (true, c)) ∨
      c.materializeRequestTargetTransform config = (false, c) ∨
      ∃ req spec b, parse c.recvBuf.bytes = .complete req c.reqHeaderEnd ∧ c.reqInitialSendLen = c.reqHeaderEnd ∧
        config[c.targetTransformId - 1]? = some spec ∧ targetAdmits req.path = true ∧
        forwardTargetTransformSpecValid spec = true ∧ spec.stripPrefix <+: pathPart req.path ∧
        c.recvBuf.len + (newTarget spec req.path).length ≤ cap + req.path.length ∧
        rewrite c.recvBuf spec req.method.bytes.length req.path.length = some b ∧
        c.materializeRequestTargetTransform config =
          (true, c.moved b ((newTarget spec req.path).length - req.path.length)) := by
  rw [materializeRequestTargetTransform]
  by_cases hrecorded : (!c.targetTransformRecorded) = true
  · exact .inl ⟨by simpa using hrecorded, if_pos hrecorded⟩
  rw [if_neg hrecorded]
  by_cases hadmits : (!c.admits config) = true
  · exact .inr (.inl (if_pos hadmits))
  rw [if_neg hadmits]
  cases hp : parse c.recvBuf.bytes with
  | incomplete => exact .inr (.inl rfl)
  | error => exact .inr (.inl rfl)
  | complete req headerEnd =>
    cases hspec : config[c.targetTransformId - 1]? with
    | none => exact .inr (.inl rfl)
    | some spec =>
      dsimp only
      by_cases hhead : (!c.headAdmits req headerEnd || !targetAdmits req.path) = true
      · exact .inr (.inl (if_pos hhead))
      rw [if_neg hhead]
      by_cases hvalid : (!forwardTargetTransformSpecValid spec || !spec.stripPrefix.isPrefixOf (pathPart req.path)) = true
      · exact .inr (.inl (if_pos hvalid))
      rw [if_neg hvalid, ← length_newTarget]
      split_ifs with hroom
      · exact .inr (.inl rfl)
      cases hrewrite : rewrite c.recvBuf spec req.method.bytes.length req.path.length with
      | none => exact .inr (.inl rfl)
      | some b =>
        simp only [Bool.not_eq_true', Bool.or_eq_true, not_or, Bool.not_eq_false, List.isPrefixOf_iff_prefix] at hhead hvalid
        simp only [headAdmits, Bool.and_eq_true, decide_eq_true_eq] at hhead
        obtain ⟨⟨⟨⟨⟨-, hend⟩, hsend⟩, -⟩, -⟩, htarget⟩ := hhead
        exact .inr (.inr ⟨req, spec, b, by rw [← hend], by rw [hsend, hend], rfl, htarget, hvalid.1, hvalid.2, by omega,
          hrewrite, rfl⟩)

/-- A transform is exact, clean and all-or-nothing: a refused one leaves the buffer and its offsets, and one that is made
replaces the prefix of the target and moves the rest. -/
theorem target_transform_exact (c : TargetConn cap) (config : Transforms) :
    ((c.materializeRequestTargetTransform config).1 = false →
      (c.materializeRequestTargetTransform config).2.recvBuf = c.recvBuf ∧
      (c.materializeRequestTargetTransform config).2.reqHeaderEnd = c.reqHeaderEnd ∧
      (c.materializeRequestTargetTransform config).2.reqInitialSendLen = c.reqInitialSendLen) ∧
    ((c.materializeRequestTargetTransform config).1 = true → c.targetTransformRecorded = true →
      ∃ spec req, config[c.targetTransformId - 1]? = some spec ∧ forwardTargetTransformSpecValid spec = true ∧
        parse c.recvBuf.bytes = .complete req c.reqHeaderEnd ∧
        Transformed spec req c (c.materializeRequestTargetTransform config).2) := by
  obtain ⟨hrecorded, hr⟩ | hr | ⟨req, spec, b, hp, hsend, hspec, htarget, hvalid, hstarts, hroom, hrewrite, hr⟩ :=
    c.materialize_cases config
  · rw [hr, hrecorded]
    exact ⟨nofun, nofun⟩
  · rw [hr]
    exact ⟨fun _ => ⟨rfl, rfl, rfl⟩, nofun⟩
  · rw [hr]
    refine ⟨nofun, fun _ _ => ⟨spec, req, hspec, hvalid, hp, ?_⟩⟩
    rw [forwardTargetTransformSpecValid, Bool.and_eq_true] at hvalid
    obtain ⟨hstrip, hreplace⟩ := hvalid
    obtain ⟨rest, hbytes, hend, huri, hretarget⟩ := parse_retarget hp
    have hstripped := hstarts.trans (pathPart_starts req.path)
    have hlen := length_newTarget spec req.path
    obtain ⟨b', hrewrite', hbytes'⟩ := rewrite_bytes hbytes hstripped (by omega)
    obtain rfl : b = b' := Option.some.inj (hrewrite.symm.trans hrewrite')
    have hheaderEnd : (c.moved b ((newTarget spec req.path).length - req.path.length)).reqHeaderEnd =
        c.reqHeaderEnd + (newTarget spec req.path).length - req.path.length := by
      simp only [moved]
      omega
    refine ⟨hstarts, ⟨rest, hbytes, hbytes'⟩, ?_, ?_, cleanPath_replaced (cleanPrefix_of hstrip) hreplace htarget hstarts,
      fun hascii => ?_⟩
    · rw [hheaderEnd]
      omega
    · simp only [moved, hsend]
      omega
    · rw [hheaderEnd]
      obtain ⟨req', hp', hpath, hheaders⟩ := hretarget (newTarget spec req.path)
        (List.append_ne_nil_of_left_ne_nil (replacement_ne_nil hreplace) _) (by
          intro c hc
          obtain hc | hc := List.mem_append.1 hc
          · exact replacement_uri hreplace hascii c hc
          · exact huri c (List.mem_of_mem_drop hc))
      refine ⟨req', ?_, hpath, hheaders⟩
      rw [← hp']
      exact congrArg parse hbytes'

/-- A connection with `GET /a/ HTTP/1.1`, for which the first transform is recorded. -/
def plainGet : TargetConn 64 where
  recvBuf := Buffer.write ⟨fun _ => 0, 0, Nat.zero_le _⟩
    (lit ['G','E','T',' ','/','a','/',' ','H','T','T','P','/','1','.','1','\r','\n','\r','\n'])
  recvBufBound := true
  reqHeaderEnd := 20
  reqInitialSendLen := 20
  targetTransformRecorded := true
  targetTransformId := 1
  http2 := false
  tlsActive := false
  reqPathOverridden := false
  reqHttp11 := true
  reqHead := false
  reqBodyMode := .none
  reqBodyRemaining := 0
  requestBodyFullyBuffered := false
  reqMalformed := false
  reqWantsUpgrade := false
  reqHeaderOverrideCount := 0
  reqHeaderOverrideOverflow := false
  respHeaderMutationCount := 0
  respHeaderMutationPendingCount := 0
  respHeaderMutationPendingOverflow := false
  respHeaderMutationOverflow := false
  responseMutationsSnapshotted := false
  retryReqSnapshotReplayable := false
  rawTargetWitness := (0, 0, 0)

/-- `/a/` becomes a slash, the byte 0x80 and a slash. -/
def highByteTransform : ForwardTargetTransformSpec := ⟨lit ['/','a','/'], [ch '/', 0x80, ch '/']⟩

/-- A valid transform whose replacement the parser refuses. -/
theorem target_transform_high_byte :
    forwardTargetTransformSpecValid highByteTransform = true ∧ plainGet.targetTransformRecorded = true ∧
      (plainGet.materializeRequestTargetTransform [highByteTransform]).1 = true ∧
      ¬ ∃ req h, parse (plainGet.materializeRequestTargetTransform [highByteTransform]).2.recvBuf.bytes =
        .complete req h := by
  refine ⟨by decide, rfl, by decide, ?_⟩
  rintro ⟨req, h, hp⟩
  cases hp

end TargetConn

end Rut.Conn
