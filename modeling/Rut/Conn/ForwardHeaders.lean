import Rut.Common.Buffer
import Rut.Conn.Mutations
import Rut.Http.Grammar

/-!
# Forwarded response heads

Port of `build_h1_forward_response_headers` in `include/rut/runtime/callbacks_impl.h`: the head of an upstream response
is written again with the committed mutations, for clients of HTTP/1. The head is scanned anew for every question that
is asked about it.
-/

set_option linter.all false
namespace Rut.Conn

open Http Lib

def crlf : Str := [ch '\r', ch '\n']

/-- What a head is forwarded with: the status of the response, the log, whether the shard drains, and whether the
connection is to be closed. -/
structure Forwarding where
  status : Nat
  log : RespHeaderLog
  draining : Bool
  forceConnectionClose : Bool
deriving DecidableEq

def cutLine : Str → Option (Str × Str)
  | c :: d :: s =>
    if c = ch '\r' ∧ d = ch '\n' then some ([], s) else (cutLine (d :: s)).map fun r => (c :: r.1, r.2)
  | _ => none

inductive HeadStep where
  /-- The empty line, or the end. -/
  | stop
  /-- A line without an end or without a colon. -/
  | broken
  | field (line name value rest : Str)
deriving DecidableEq

def nextField (s : Str) : HeadStep :=
  if s.length < 2 ∨ s.take 2 = crlf then .stop
  else
    match cutLine s with
    | none => .broken
    | some (line, rest) =>
      if ch ':' ∉ line then .broken
      else .field line ((line.takeWhile (· != ch ':')).rdropWhile isOws) ((line.dropWhile (· != ch ':')).drop 1) rest

/-- The loop of `upstream_connection_nominates`. Each turn shortens the head. -/
def nominatesLoop (name : Str) : Nat → Str → Bool
  | 0, _ => false
  | turns + 1, s =>
    match nextField s with
    | .stop => false
    | .broken => false
    | .field _ fieldName value rest =>
      (httpHeaderNameEqCi fieldName connectionName &&
        (connectionOptions value).any fun option => httpHeaderNameEqCi option name) ||
      nominatesLoop name turns rest

namespace Forwarding

variable (f : Forwarding) (head : Str)

def upstreamConnectionNominates (name : Str) : Bool :=
  if f.status = 101 then false
  else
    match cutLine head with
    | none => false
    | some (_, rest) => nominatesLoop name head.length rest

def nominatedFraming : Bool :=
  f.upstreamConnectionNominates head contentLengthName || f.upstreamConnectionNominates head transferEncodingName

def closes : Bool := f.draining || f.forceConnectionClose || f.nominatedFraming head

def baseSuppressed (name : Str) : Bool :=
  if httpHeaderNameEqCi name contentLengthName || httpHeaderNameEqCi name transferEncodingName then false
  else if f.closes head && httpHeaderNameEqCi name connectionName then true
  else if f.upstreamConnectionNominates head name then true
  else f.log.committed.any fun m => m.mode ≠ .add && httpHeaderNameEqCi name m.name

end Forwarding

/-- `nominated_mutation`: whether an option names an entry that survives or removes. -/
def nominatedMutation (token : Str) : List RespHeaderMutation → Bool
  | [] => false
  | m :: later =>
    (!(m.mode ≠ .remove && !responseMutationSurvives m later) && httpHeaderNameEqCi token m.name) ||
      nominatedMutation token later

def connectionNominatesMutation (log : List RespHeaderMutation) (value : Str) : Bool :=
  (connectionOptions value).any fun option => nominatedMutation option log

def connectionColon : Str := lit ['C','o','n','n','e','c','t','i','o','n',':',' ']
def connectionClose : Str := lit ['C','o','n','n','e','c','t','i','o','n',':',' ','c','l','o','s','e']

variable {cap : Nat}

/-- The loop of `write_filtered_connection` over the options of the value. -/
def writeOptions (log : List RespHeaderMutation) : List Str → Bool → Output cap → Option (Output cap)
  | [], wroteHeader, out => if !wroteHeader then some out else out.write crlf
  | option :: options, wroteHeader, out =>
    if nominatedMutation option log then writeOptions log options wroteHeader out
    else
      (out.write (if !wroteHeader then connectionColon else lit [',',' '])).bind fun out =>
        (out.write option).bind fun out => writeOptions log options true out

def writeFilteredConnection (log : List RespHeaderMutation) (value : Str) (out : Output cap) : Option (Output cap) :=
  writeOptions log (connectionOptions value) false out

def writeLines (f : Forwarding) (head : Str) : Nat → Str → Output cap → Option (Output cap)
  | 0, _, _ => none
  | turns + 1, s, out =>
    match nextField s with
    | .stop => some out
    | .broken => none
    | .field line name value rest =>
      if f.baseSuppressed head name then writeLines f head turns rest out
      else if httpHeaderNameEqCi name connectionName && connectionNominatesMutation f.log.committed value then
        (writeFilteredConnection f.log.committed value out).bind (writeLines f head turns rest)
      else (out.write (line ++ crlf)).bind (writeLines f head turns rest)

def writeMutations : List RespHeaderMutation → Output cap → Option (Output cap)
  | [], out => some out
  | m :: later, out =>
    if !responseMutationSurvives m later then writeMutations later out
    else
      (out.write m.name).bind fun out => (out.write (lit [':',' '])).bind fun out =>
        (out.write m.value).bind fun out => (out.write crlf).bind (writeMutations later)

def isHandshakeName (name : Str) : Bool :=
  httpHeaderNameEqCi name connectionName || httpHeaderNameEqCi name upgradeName ||
    httpHeaderNameEqCi name
      (lit ['s','e','c','-','w','e','b','s','o','c','k','e','t','-','p','r','o','t','o','c','o','l']) ||
    httpHeaderNameEqCi name
      (lit ['s','e','c','-','w','e','b','s','o','c','k','e','t','-','e','x','t','e','n','s','i','o','n',
        's']) ||
    httpHeaderNameEqCi name
      (lit ['s','e','c','-','w','e','b','s','o','c','k','e','t','-','a','c','c','e','p','t'])

/-- `build_h1_forward_response_headers`, with the upstream buffer and a buffer of `cap` bytes for the head. The result
comes with the flag of the connection to be kept alive. -/
def buildH1ForwardResponseHeaders (cap : Nat) (f : Forwarding) (upstream : Str) (headerLen : Nat) (keepAlive : Bool) :
    Option (Str × Bool) :=
  if (f.log.committed = [] ∧ !f.forceConnectionClose) ∨ f.log.overflow ∨ headerLen < 4 ∨ headerLen > upstream.length then none
  else if f.log.committed.any fun m => (f.status = 101 && isHandshakeName m.name) || !m.valid then none
  else
    let head := upstream.take headerLen
    match cutLine head with
    | none => none
    | some (line, rest) =>
      ((Output.empty cap).write (line ++ crlf)).bind fun out =>
      (writeLines f head head.length rest out).bind fun out =>
      (writeMutations f.log.committed out).bind fun out =>
      (if f.closes head then out.write (connectionClose ++ crlf) else some out).bind fun out =>
      (out.write crlf).map fun out => (out.bytes, keepAlive && !f.nominatedFraming head)

/-! ## The lines of a head -/

structure FieldLine (g : RawField) : Prop where
  name_ne : g.name ≠ []
  name_token : ∀ c ∈ g.name, tableAt kTokenTable c = true
  raw_cr : ch '\r' ∉ g.raw

structure UpstreamHead (head line : Str) (fs : List RawField) : Prop where
  bytes : head = line ++ crlf ++ (fs.flatMap RawField.bytes ++ crlf)
  line_cr : ch '\r' ∉ line
  fields : ∀ g ∈ fs, FieldLine g

lemma cutLine_line {l} (h : ch '\r' ∉ l) (t : Str) : cutLine (l ++ crlf ++ t) = some (l, t) := by
  induction l with
  | nil => rfl
  | cons c l ih =>
    obtain ⟨hc, hl⟩ := List.ne_and_not_mem_of_not_mem_cons h
    obtain ⟨d, l', hd⟩ : ∃ d l', l ++ crlf ++ t = d :: l' := by
      cases l with
      | nil => exact ⟨_, _, rfl⟩
      | cons d l => exact ⟨_, _, rfl⟩
    have hrest := ih hl
    rw [hd] at hrest
    rw [List.cons_append, List.cons_append, hd, cutLine, if_neg fun h => hc h.1.symm, hrest]
    rfl

namespace FieldLine

variable {g : RawField}

lemma name_byte (h : FieldLine g) : ∀ c ∈ g.name, c ≠ ch '\r' ∧ c ≠ ch ':' ∧ isOws c = false := by
  have hall : ∀ c, tableAt kTokenTable c = true → c ≠ ch '\r' ∧ c ≠ ch ':' ∧ isOws c = false := by
    simp only [tableAt_token]
    exact forall_uint8 (by decide +kernel)
  exact fun c hc => hall c (h.name_token c hc)

lemma not_stop (h : FieldLine g) (t : Str) : ¬ ((g.bytes ++ t).length < 2 ∨ (g.bytes ++ t).take 2 = crlf) := by
  rintro (hlt | htake)
  · simp [RawField.bytes] at hlt
    omega
  · obtain ⟨c, name, hname⟩ := List.exists_cons_of_ne_nil h.name_ne
    have hc := (h.name_byte c (by simp [hname])).1
    rw [RawField.bytes, hname, List.cons_append, List.cons_append, List.take_succ_cons, crlf, List.cons.injEq] at htake
    exact hc htake.1

lemma nextField_bytes (h : FieldLine g) (t : Str) :
    nextField (g.bytes ++ t) = .field (g.name ++ ch ':' :: g.raw) g.name g.raw t := by
  have hname := h.name_byte
  have hcr : ch '\r' ∉ g.name ++ ch ':' :: g.raw := by
    simp only [List.mem_append, List.mem_cons, not_or]
    exact ⟨fun hmem => (hname _ hmem).1 rfl, by decide, h.raw_cr⟩
  have hbytes : g.bytes ++ t = (g.name ++ ch ':' :: g.raw) ++ crlf ++ t := by simp [RawField.bytes, crlf]
  have htake : (g.name ++ ch ':' :: g.raw).takeWhile (· != ch ':') = g.name := by
    rw [List.takeWhile_append_of_pos (by simpa using fun c hc => (hname c hc).2.1)]
    simp
  have hdrop : (g.name ++ ch ':' :: g.raw).dropWhile (· != ch ':') = ch ':' :: g.raw := by
    rw [List.dropWhile_append_of_pos (by simpa using fun c hc => (hname c hc).2.1)]
    simp
  have htrim : g.name.rdropWhile isOws = g.name := by
    rw [List.rdropWhile_eq_self_iff]
    intro hne
    rw [(hname _ (List.getLast_mem hne)).2.2]
    exact Bool.false_ne_true
  rw [nextField, if_neg (h.not_stop t), hbytes, cutLine_line hcr]
  dsimp only
  rw [if_neg (by simp), htake, hdrop, htrim]
  rfl

end FieldLine

lemma nextField_crlf : nextField crlf = .stop := rfl

/-! ## Nominations -/

def Nominates (fs : List RawField) (name : Str) : Prop :=
  ∃ g ∈ fs, lower g.name = connectionName ∧ ∃ option ∈ commaList g.raw, lower option = lower name

lemma nominatesLoop_eq {fs : List RawField} (h : ∀ g ∈ fs, FieldLine g) (name : Str) {turns} (ht : fs.length < turns) :
    nominatesLoop name turns (fs.flatMap RawField.bytes ++ crlf) = true ↔ Nominates fs name := by
  induction fs generalizing turns with
  | nil =>
    cases turns with
    | zero => cases ht
    | succ turns => simp [nominatesLoop, nextField_crlf, Nominates]
  | cons g fs ih =>
    cases turns with
    | zero => cases ht
    | succ turns =>
      have hrest := ih (fun g hg => h g (List.mem_cons_of_mem _ hg)) (by simpa using ht : fs.length < turns)
      have hlower : lower connectionName = connectionName := by decide
      rw [List.flatMap_cons, List.append_assoc, nominatesLoop, (h g List.mem_cons_self).nextField_bytes]
      rw [Bool.or_eq_true, hrest, connectionOptions_eq]
      simp [Nominates, httpHeaderNameEqCi, hlower]

section head
variable {f : Forwarding} {head line : Str} {fs : List RawField}

lemma length_lt_flatMap (fs : List RawField) : fs.length ≤ (fs.flatMap RawField.bytes).length := by
  induction fs with
  | nil => exact Nat.le_refl _
  | cons g fs ih =>
    rw [List.flatMap_cons, List.length_append, List.length_cons, RawField.bytes, List.length_append, List.length_cons]
    omega

lemma UpstreamHead.length_lt (h : UpstreamHead head line fs) : fs.length < head.length := by
  have hle := length_lt_flatMap fs
  rw [h.bytes]
  simp only [List.length_append, crlf, List.length_cons, List.length_nil]
  omega

lemma UpstreamHead.cut (h : UpstreamHead head line fs) :
    cutLine head = some (line, fs.flatMap RawField.bytes ++ crlf) := by
  rw [h.bytes]
  exact cutLine_line h.line_cr _

lemma UpstreamHead.nominates (h : UpstreamHead head line fs) (hstatus : f.status ≠ 101) (name : Str) :
    f.upstreamConnectionNominates head name = true ↔ Nominates fs name := by
  rw [Forwarding.upstreamConnectionNominates, if_neg hstatus, h.cut]
  exact nominatesLoop_eq h.fields name h.length_lt

/-! ## What is written -/

def RespHeaderMutation.rawField (m : RespHeaderMutation) : RawField := ⟨m.name, ch ' ' :: m.value⟩

def keptOptions (log : List RespHeaderMutation) (value : Str) : List Str :=
  (commaList value).filter fun option => !nominatedMutation option log

def optionsLine (options : List Str) : RawField :=
  ⟨lit ['C','o','n','n','e','c','t','i','o','n'], ch ' ' :: (lit [',',' ']).intercalate options⟩

/-- A Connection line as it is forwarded: verbatim, or without the options that name a mutation. -/
def forwardedConnection (log : List RespHeaderMutation) (g : RawField) : List RawField :=
  if (commaList g.raw).any fun option => nominatedMutation option log then
    if keptOptions log g.raw = [] then [] else [optionsLine (keptOptions log g.raw)]
  else [g]

def forwardedLine (f : Forwarding) (head : Str) (g : RawField) : List RawField :=
  if f.baseSuppressed head g.name then []
  else if httpHeaderNameEqCi g.name connectionName then forwardedConnection f.log.committed g
  else [g]

lemma intercalate_cons (sep s : Str) (l : List Str) : sep.intercalate (s :: l) = s ++ l.flatMap (sep ++ ·) := by
  induction l generalizing s with
  | nil => simp [List.intercalate]
  | cons t l ih =>
    have hcons : sep.intercalate (s :: t :: l) = s ++ (sep ++ sep.intercalate (t :: l)) := by
      simp [List.intercalate, List.intersperse]
    rw [hcons, ih, List.flatMap_cons, List.append_assoc]

lemma writeOptions_tail (log : List RespHeaderMutation) (options : List Str) (out : Output cap) :
    writeOptions log options true out =
      out.write ((options.filter fun option => !nominatedMutation option log).flatMap (lit [',',' '] ++ ·) ++ crlf) := by
  induction options generalizing out with
  | nil => rfl
  | cons option options ih =>
    rw [writeOptions, List.filter_cons]
    cases nominatedMutation option log with
    | true => simp only [if_true, Bool.not_true, Bool.false_eq_true, if_false, ih]
    | false =>
      simp only [Bool.false_eq_true, if_false, Bool.not_false, Bool.not_true, if_true, ih, Output.write_bind,
        List.flatMap_cons, List.append_assoc]

lemma writeOptions_eq (log : List RespHeaderMutation) (options : List Str) (out : Output cap) :
    writeOptions log options false out =
      out.write ((if options.filter (fun option => !nominatedMutation option log) = [] then []
        else [optionsLine (options.filter fun option => !nominatedMutation option log)]).flatMap RawField.bytes) := by
  induction options with
  | nil => simp [writeOptions]
  | cons option options ih =>
    rw [writeOptions, List.filter_cons]
    cases nominatedMutation option log with
    | true => simp only [if_true, Bool.not_true, Bool.false_eq_true, if_false, ih]
    | false =>
      simp only [Bool.false_eq_true, if_false, Bool.not_false, if_true, writeOptions_tail, Output.write_bind]
      congr 1
      generalize options.filter (fun option => !nominatedMutation option log) = kept
      rw [if_neg (List.cons_ne_nil _ _), List.flatMap_singleton, optionsLine, RawField.bytes, intercalate_cons]
      simp [connectionColon, lit, crlf]

lemma writeLines_eq (hfs : ∀ g ∈ fs, FieldLine g) {turns} (ht : fs.length < turns) (out : Output cap) :
    writeLines f head turns (fs.flatMap RawField.bytes ++ crlf) out =
      out.write ((fs.flatMap (forwardedLine f head)).flatMap RawField.bytes) := by
  induction fs generalizing turns out with
  | nil =>
    cases turns with
    | zero => cases ht
    | succ turns => simp [writeLines, nextField_crlf]
  | cons g fs ih =>
    cases turns with
    | zero => cases ht
    | succ turns =>
      have hrest : writeLines f head turns (fs.flatMap RawField.bytes ++ crlf) =
          fun out : Output cap => out.write ((fs.flatMap (forwardedLine f head)).flatMap RawField.bytes) := by
        funext out
        exact ih (fun g hg => hfs g (List.mem_cons_of_mem _ hg)) (by simpa using ht) out
      rw [List.flatMap_cons, List.append_assoc, writeLines, (hfs g List.mem_cons_self).nextField_bytes]
      dsimp only
      rw [hrest, List.flatMap_cons, List.flatMap_append, forwardedLine, connectionNominatesMutation, connectionOptions_eq,
        writeFilteredConnection, connectionOptions_eq, writeOptions_eq]
      cases f.baseSuppressed head g.name with
      | true => simp
      | false =>
        cases httpHeaderNameEqCi g.name connectionName with
        | false => simp [RawField.bytes, crlf]
        | true =>
          rw [forwardedConnection, keptOptions]
          cases (commaList g.raw).any fun option => nominatedMutation option f.log.committed with
          | true => simp only [Bool.false_eq_true, if_false, if_true, Bool.and_self, Output.write_bind]
          | false => simp [RawField.bytes, crlf]

lemma writeMutations_eq (log : List RespHeaderMutation) (out : Output cap) :
    writeMutations log out = out.write ((survivingFields RespHeaderMutation.rawField log).flatMap RawField.bytes) := by
  induction log generalizing out with
  | nil => simp [writeMutations, survivingFields]
  | cons m later ih =>
    rw [writeMutations, survivingFields]
    cases responseMutationSurvives m later with
    | false => simp [ih]
    | true =>
      simp [ih, RawField.bytes, RespHeaderMutation.rawField, crlf, lit]

def closeLine : RawField :=
  ⟨lit ['C','o','n','n','e','c','t','i','o','n'], ch ' ' :: lit ['c','l','o','s','e']⟩

def forwardedFields (f : Forwarding) (head : Str) (fs : List RawField) : List RawField :=
  fs.flatMap (forwardedLine f head) ++ survivingFields RespHeaderMutation.rawField f.log.committed ++
    if f.closes head then [closeLine] else []

def Forwarding.Admits (f : Forwarding) : Prop :=
  (f.log.committed ≠ [] ∨ f.forceConnectionClose = true) ∧ f.log.overflow = false ∧
    ∀ m ∈ f.log.committed, m.valid = true ∧ (f.status = 101 → isHandshakeName m.name = false)

lemma build_eq (cap : Nat) (keepAlive : Bool) {upstream headerLen} (h : UpstreamHead (upstream.take headerLen) line fs)
    (hlen : 4 ≤ headerLen ∧ headerLen ≤ upstream.length) (hadmits : f.Admits) :
    buildH1ForwardResponseHeaders cap f upstream headerLen keepAlive = ((Output.empty cap).write
        (line ++ crlf ++ ((forwardedFields f (upstream.take headerLen) fs).flatMap RawField.bytes ++ crlf))).map
          fun out => (out.bytes, keepAlive && !f.nominatedFraming (upstream.take headerLen)) := by
  obtain ⟨hlog, hover, hvalid⟩ := hadmits
  have hguard : ¬ ((f.log.committed = [] ∧ !f.forceConnectionClose) ∨ f.log.overflow ∨ headerLen < 4 ∨
      headerLen > upstream.length) := by
    rintro (⟨hnil, hforce⟩ | hbad | hbad | hbad)
    · rcases hlog with hlog | hlog
      · exact hlog hnil
      · simp [hlog] at hforce
    · simp [hover] at hbad
    · omega
    · omega
  have hall : ¬ (f.log.committed.any fun m => (f.status = 101 && isHandshakeName m.name) || !m.valid) = true := by
    rw [List.any_eq_true]
    rintro ⟨m, hm, hbad⟩
    obtain ⟨hok, hname⟩ := hvalid m hm
    rcases Decidable.em (f.status = 101) with hs | hs
    · simp [hok, hname hs] at hbad
    · simp [hok, hs] at hbad
  rw [buildH1ForwardResponseHeaders, if_neg hguard, if_neg hall]
  dsimp only
  rw [h.cut]
  have hclose : ∀ out : Output cap, (if f.closes (upstream.take headerLen) then out.write (connectionClose ++ crlf)
      else some out) = out.write ((if f.closes (upstream.take headerLen) then [closeLine] else []).flatMap RawField.bytes) := by
    intro out
    split_ifs
    · simp [connectionClose, closeLine, RawField.bytes, lit, crlf]
    · simp
  simp only [writeLines_eq h.fields h.length_lt, writeMutations_eq, hclose, Output.write_bind_map]
  simp only [forwardedFields, List.flatMap_append, List.append_assoc]

lemma admits_of_build {upstream headerLen keepAlive r}
    (h : buildH1ForwardResponseHeaders cap f upstream headerLen keepAlive = some r) : f.Admits := by
  obtain ⟨hguard, h⟩ := Option.ite_none_left_eq_some.1 h
  obtain ⟨hall, -⟩ := Option.ite_none_left_eq_some.1 h
  simp only [not_or, not_and, Bool.not_eq_true, Bool.not_eq_true', Bool.not_eq_false] at hguard
  refine ⟨?_, hguard.2.1, ?_⟩
  · rcases Decidable.em (f.log.committed = []) with hnil | hne
    · exact .inr (hguard.1 hnil)
    · exact .inl hne
  · intro m hm
    rw [Bool.not_eq_true, List.any_eq_false] at hall
    have hentry := hall m hm
    simp only [Bool.or_eq_true, Bool.and_eq_true, decide_eq_true_eq, Bool.not_eq_true', not_or, not_and,
      Bool.not_eq_false, Bool.not_eq_true] at hentry
    exact ⟨hentry.2, hentry.1⟩

lemma upstreamHead_of_parse {upstream resp headerLen} (hp : parseResponse upstream = .complete resp headerLen) :
    ∃ line fs, UpstreamHead (upstream.take headerLen) line fs ∧ (4 ≤ headerLen ∧ headerLen ≤ upstream.length) ∧
      headFields (upstream.take headerLen) = fs.map RawField.field := by
  obtain ⟨line, ps, rest, -, rfl, hline, rfl, -⟩ := parseResponse_lines hp
  rw [take_responseHead]
  refine ⟨line, ps.map HeaderParts.rawField, ⟨?_, hline, ?_⟩, ?_, ?_⟩
  · rw [flatMap_rawField]
    simp [crlf]
  · intro g hg
    obtain ⟨p, -, rfl⟩ := List.mem_map.1 hg
    refine ⟨p.name_ne, p.name_token, ?_⟩
    intro hcr
    exact p.not_mem_cr (by simp only [HeaderParts.line, List.mem_append, List.mem_cons]; exact .inr (.inr (by simpa [HeaderParts.rawField] using hcr)))
  · simp only [List.length_append, List.length_cons]
    omega
  · rw [headFields_lines hline, map_rawField_field]
    rfl

/-! ## Framing and nominations -/

def isConnection (g : RawField) : Bool := httpHeaderNameEqCi g.name connectionName

def isFraming (g : RawField) : Bool :=
  httpHeaderNameEqCi g.name contentLengthName || httpHeaderNameEqCi g.name transferEncodingName

instance (fs : List RawField) (name : Str) : Decidable (Nominates fs name) :=
  inferInstanceAs (Decidable (∃ g ∈ fs, _ ∧ ∃ option ∈ _, _))

def Edited (log : List RespHeaderMutation) (name : Str) : Prop := ∃ m ∈ log, m.mode ≠ .add ∧ lower m.name = lower name

instance (log : List RespHeaderMutation) (name : Str) : Decidable (Edited log name) :=
  inferInstanceAs (Decidable (∃ m ∈ log, _ ∧ _))

def Closes (f : Forwarding) (fs : List RawField) : Prop :=
  f.draining = true ∨ f.forceConnectionClose = true ∨ Nominates fs contentLengthName ∨ Nominates fs transferEncodingName

instance (f : Forwarding) (fs : List RawField) : Decidable (Closes f fs) := inferInstanceAs (Decidable (_ ∨ _ ∨ _ ∨ _))

lemma not_framing_of_connection {g} (h : isConnection g = true) : isFraming g = false := by
  simp only [isFraming, isConnection, httpHeaderNameEqCi, beq_iff_eq] at h ⊢
  rw [h]
  decide

lemma edited_iff (log : List RespHeaderMutation) (name : Str) :
    (log.any fun m => m.mode ≠ .add && httpHeaderNameEqCi name m.name) = true ↔ Edited log name := by
  simp only [List.any_eq_true, Edited, httpHeaderNameEqCi, Bool.and_eq_true, decide_eq_true_eq, beq_iff_eq,
    @eq_comm _ (lower name)]

lemma UpstreamHead.closes_iff (h : UpstreamHead head line fs) (hstatus : f.status ≠ 101) :
    f.closes head = true ↔ Closes f fs := by
  simp only [Forwarding.closes, Forwarding.nominatedFraming, Bool.or_eq_true, h.nominates hstatus, Closes, or_assoc]

lemma UpstreamHead.suppressed_iff (h : UpstreamHead head line fs) (hstatus : f.status ≠ 101) (g : RawField) :
    f.baseSuppressed head g.name = true ↔
      isFraming g = false ∧ ((Closes f fs ∧ isConnection g = true) ∨ Nominates fs g.name ∨ Edited f.log.committed g.name) := by
  rw [Forwarding.baseSuppressed, ← h.closes_iff hstatus, ← h.nominates hstatus, ← edited_iff, isFraming, isConnection]
  generalize (httpHeaderNameEqCi g.name contentLengthName || httpHeaderNameEqCi g.name transferEncodingName) = framing
  cases framing with
  | true => simp
  | false =>
    rw [if_neg Bool.false_ne_true]
    split_ifs with hclose hnominated
    · rw [Bool.and_eq_true] at hclose
      simp [hclose]
    · simp [hnominated]
    · rw [Bool.and_eq_true] at hclose
      simp only [hclose, hnominated, Bool.false_eq_true, false_or, true_and]

lemma filter_flatMap_eq {k} {p q : RawField → Bool}
    (h : ∀ g ∈ fs, (k g).filter p = if q g then [g] else []) : (fs.flatMap k).filter p = fs.filter q := by
  induction fs with
  | nil => rfl
  | cons g fs ih =>
    rw [List.flatMap_cons, List.filter_append, h g List.mem_cons_self, ih fun g hg => h g (List.mem_cons_of_mem _ hg),
      List.filter_cons]
    split_ifs <;> rfl

lemma optionsLine_connection (options : List Str) : isConnection (optionsLine options) = true := by
  have hname : isConnection ⟨(optionsLine []).name, []⟩ = true := by decide
  exact hname

lemma forwardedConnection_connection {log g g'} (hg : isConnection g = true)
    (h : g' ∈ forwardedConnection log g) : isConnection g' = true := by
  rw [forwardedConnection] at h
  split_ifs at h
  · cases h
  · rw [List.mem_singleton.1 h]
    exact optionsLine_connection _
  · rw [List.mem_singleton.1 h]
    exact hg

lemma forwardedLine_other {g} (hg : isConnection g = false) :
    forwardedLine f head g = if f.baseSuppressed head g.name then [] else [g] := by
  rw [isConnection] at hg
  simp only [forwardedLine, hg, Bool.false_eq_true, if_false]

lemma forwardedLine_connection {g} (hg : isConnection g = true) :
    forwardedLine f head g = if f.baseSuppressed head g.name then [] else forwardedConnection f.log.committed g := by
  rw [isConnection] at hg
  simp only [forwardedLine, hg, if_true]

lemma forwardedLine_mem {g g'} (hg : isConnection g = true) (h : g' ∈ forwardedLine f head g) :
    isConnection g' = true := by
  rw [forwardedLine_connection hg] at h
  split_ifs at h
  · cases h
  · exact forwardedConnection_connection hg h

lemma mem_survivingFields {α} {made : RespHeaderMutation → α} {log a}
    (h : a ∈ survivingFields made log) : ∃ m ∈ log, a = made m := by
  induction log with
  | nil => cases h
  | cons m later ih =>
    rcases List.mem_append.1 h with h | h
    · split_ifs at h
      · exact ⟨m, List.mem_cons_self, List.mem_singleton.1 h⟩
      · cases h
    · obtain ⟨m', hm', ha⟩ := ih h
      exact ⟨m', List.mem_cons_of_mem _ hm', ha⟩

lemma valid_other {m : RespHeaderMutation} (hvalid : m.valid = true) :
    isFraming m.rawField = false ∧ isConnection m.rawField = false := by
  have hok := beq_iff_eq.1 hvalid
  rw [validateResponseHeader] at hok
  have hreserved : ¬ isReservedResponseHeaderName m.name = true := by
    intro hbad
    split_ifs at hok
  simp only [isReservedResponseHeaderName, Bool.or_eq_true, not_or, Bool.not_eq_true] at hreserved
  obtain ⟨⟨hlength, hencoding⟩, hconnection⟩ := hreserved
  have hnames : lower (lit ['C','o','n','t','e','n','t','-','L','e','n','g','t','h']) = lower contentLengthName ∧
      lower (lit ['T','r','a','n','s','f','e','r','-','E','n','c','o','d','i','n','g']) =
        lower transferEncodingName ∧
      lower (lit ['C','o','n','n','e','c','t','i','o','n']) = lower connectionName := by decide
  rw [httpHeaderNameEqCi] at hlength hencoding hconnection
  rw [hnames.1] at hlength
  rw [hnames.2.1] at hencoding
  rw [hnames.2.2] at hconnection
  simp only [isFraming, isConnection, httpHeaderNameEqCi, RespHeaderMutation.rawField, hlength, hencoding, hconnection,
    Bool.or_self, and_self]

lemma isConnection_iff {g : RawField} : isConnection g = true ↔ lower g.name = lower connectionName := beq_iff_eq

lemma not_edited_connection {log} (hvalid : ∀ m ∈ log, m.valid = true) {g}
    (hg : isConnection g = true) : ¬ Edited log g.name := by
  rintro ⟨m, hm, -, hname⟩
  have hno := (valid_other (hvalid m hm)).2
  rw [isConnection_iff.2 (hname.trans (isConnection_iff.1 hg) : lower m.rawField.name = lower connectionName)] at hno
  cases hno

namespace UpstreamHead

lemma forwarded_connection (h : UpstreamHead head line fs) (hstatus : f.status ≠ 101)
    (hvalid : ∀ m ∈ f.log.committed, m.valid = true) {g} (hg : isConnection g = true) : forwardedLine f head g =
      if Closes f fs ∨ Nominates fs connectionName then [] else forwardedConnection f.log.committed g := by
  have hframing := not_framing_of_connection hg
  have hnominates : Nominates fs g.name ↔ Nominates fs connectionName := by
    simp only [Nominates, isConnection_iff.1 hg]
  have hsupp := h.suppressed_iff hstatus g
  simp only [hframing, hg, and_true, true_and, hnominates, not_edited_connection hvalid hg, or_false] at hsupp
  rw [forwardedLine_connection hg]
  simp only [hsupp]

lemma forwarded_other (h : UpstreamHead head line fs) (hstatus : f.status ≠ 101) {g} (hg : isConnection g = false) :
    forwardedLine f head g =
      if isFraming g || !decide (Nominates fs g.name ∨ Edited f.log.committed g.name) then [g] else [] := by
  have hsupp := h.suppressed_iff hstatus g
  rw [forwardedLine_other hg]
  simp only [hsupp, hg, Bool.false_eq_true, and_false, false_or]
  cases isFraming g with
  | true => simp
  | false =>
    rcases Decidable.em (Nominates fs g.name ∨ Edited f.log.committed g.name) with hout | hout
    · simp only [hout, decide_true, Bool.not_true, Bool.or_false, Bool.false_eq_true, and_self, if_true, if_false]
    · simp only [hout, decide_false, Bool.not_false, Bool.or_true, and_false, if_true, if_false]

lemma forwarded_filter (h : UpstreamHead head line fs) (hstatus : f.status ≠ 101)
    (hvalid : ∀ m ∈ f.log.committed, m.valid = true) : (fs.flatMap (forwardedLine f head)).filter isConnection =
      if Closes f fs ∨ Nominates fs connectionName then []
      else (fs.filter isConnection).flatMap (forwardedConnection f.log.committed) := by
  have hline : ∀ g : RawField, (forwardedLine f head g).filter isConnection =
      if isConnection g then
        if Closes f fs ∨ Nominates fs connectionName then [] else forwardedConnection f.log.committed g
      else [] := by
    intro g
    cases hg : isConnection g with
    | true =>
      rw [h.forwarded_connection hstatus hvalid hg, if_pos rfl]
      split_ifs
      · rfl
      · exact List.filter_eq_self.2 fun g' hg' => forwardedConnection_connection hg hg'
    | false =>
      rw [h.forwarded_other hstatus hg]
      split_ifs <;> simp_all
  have hsplit : ∀ (gs : List RawField) (k : RawField → List RawField),
      (gs.flatMap fun g => if isConnection g then k g else []) = (gs.filter isConnection).flatMap k := by
    intro gs k
    induction gs with
    | nil => rfl
    | cons g gs ih =>
      rw [List.flatMap_cons, ih, List.filter_cons]
      split_ifs <;> simp
  rw [List.filter_flatMap]
  simp only [hline, hsplit]
  split_ifs
  · simp
  · rfl

end UpstreamHead

/-- Rewritten heads keep the framing and drop what belongs to the connection. Of an accepted upstream head the lines
that frame the body are forwarded verbatim, and so are the others but those of Connection, unless a Connection field or
a set or removal names them; then come the mutations that survive. A response that ends the connection has one
Connection line, the last one. Otherwise the Connection lines lose the options that name an applied mutation, or are
dropped if Connection itself is nominated. -/
theorem forwarded_head_exact {f : Forwarding} {upstream out : Str} {resp : ParsedResponse} {headerLen : Nat}
    {keepAlive keepAlive' : Bool} (hp : parseResponse upstream = .complete resp headerLen) (hstatus : f.status = resp.statusCode)
    (hswitch : resp.statusCode ≠ 101)
    (hbuild : buildH1ForwardResponseHeaders cap f upstream headerLen keepAlive = some (out, keepAlive')) :
    ∃ line fs kept closing, UpstreamHead (upstream.take headerLen) line fs ∧
      out = line ++ crlf ++
        ((kept ++ survivingFields RespHeaderMutation.rawField f.log.committed ++ closing).flatMap RawField.bytes ++ crlf) ∧
      kept.filter isFraming = fs.filter isFraming ∧
      kept.filter (fun g => !isConnection g) = fs.filter (fun g => !isConnection g &&
        (isFraming g || !decide (Nominates fs g.name ∨ Edited f.log.committed g.name))) ∧
      (∀ g ∈ survivingFields RespHeaderMutation.rawField f.log.committed, isFraming g = false ∧ isConnection g = false) ∧
      (Closes f fs → closing = [closeLine] ∧ ∀ g ∈ kept, isConnection g = false) ∧
      (¬ Closes f fs → closing = [] ∧ (Nominates fs connectionName → ∀ g ∈ kept, isConnection g = false) ∧
        (¬ Nominates fs connectionName →
          kept.filter isConnection = (fs.filter isConnection).flatMap (forwardedConnection f.log.committed))) := by
  obtain ⟨line, fs, hhead, hlen, -⟩ := upstreamHead_of_parse hp
  have hs : f.status ≠ 101 := by rwa [hstatus]
  have hadmits : f.Admits := admits_of_build hbuild
  rw [build_eq cap keepAlive hhead hlen hadmits] at hbuild
  obtain ⟨o, ho, heq⟩ := Option.map_eq_some_iff.1 hbuild
  have hout : out = line ++ crlf ++ ((forwardedFields f (upstream.take headerLen) fs).flatMap RawField.bytes ++ crlf) := by
    rw [← (Prod.mk.inj heq).1, Output.write_eq_some.1 ho]
    rfl
  have hvalid : ∀ m ∈ f.log.committed, m.valid = true := fun m hm => (hadmits.2.2 m hm).1
  generalize upstream.take headerLen = head at hhead hout
  have hclose := hhead.closes_iff hs
  refine ⟨line, fs, fs.flatMap (forwardedLine f head), if f.closes head then [closeLine] else [], hhead, hout, ?_, ?_,
    ?_, ?_, ?_⟩
  · apply filter_flatMap_eq
    intro g _
    cases hg : isConnection g with
    | true =>
      rw [not_framing_of_connection hg, if_neg Bool.false_ne_true, List.filter_eq_nil_iff]
      intro g' hg'
      rw [not_framing_of_connection (forwardedLine_mem hg hg')]
      exact Bool.false_ne_true
    | false =>
      rw [hhead.forwarded_other hs hg]
      cases hframing : isFraming g <;> split_ifs <;> simp_all
  · apply filter_flatMap_eq
    intro g _
    cases hg : isConnection g with
    | true =>
      rw [Bool.not_true, Bool.false_and, if_neg Bool.false_ne_true, List.filter_eq_nil_iff]
      intro g' hg'
      rw [forwardedLine_mem hg hg']
      exact Bool.false_ne_true
    | false =>
      rw [hhead.forwarded_other hs hg]
      split_ifs <;> simp_all
  · intro g hg
    obtain ⟨m, hm, rfl⟩ := mem_survivingFields hg
    exact valid_other (hvalid m hm)
  · intro hcloses
    have hkept := hhead.forwarded_filter hs hvalid
    rw [if_pos (.inl hcloses), List.filter_eq_nil_iff] at hkept
    rw [if_pos (hclose.2 hcloses)]
    exact ⟨rfl, by simpa using hkept⟩
  · intro hopen
    have hkept := hhead.forwarded_filter hs hvalid
    simp only [hopen, false_or] at hkept
    rw [if_neg (mt hclose.1 hopen)]
    refine ⟨rfl, fun hnom => ?_, fun hnom => ?_⟩
    · rw [if_pos hnom, List.filter_eq_nil_iff] at hkept
      simpa using hkept
    · rwa [if_neg hnom] at hkept

def hopResponse : Str :=
  lit ['H','T','T','P','/','1','.','1',' ','2','0','0',' ','O','K','\r','\n','C','o','n','n','e','c','t',
    'i','o','n',':','x','\r','\n','X',':','1','\r','\n','\r','\n']

def hopForwarding : Forwarding := ⟨200, { entries := [⟨lit ['Y'], lit ['2'], .set⟩], count := 1 }, false, false⟩

theorem hopResponse_forwarded : ∃ resp out, parseResponse hopResponse = .complete resp 38 ∧ resp.statusCode = 200 ∧
    buildH1ForwardResponseHeaders 64 hopForwarding hopResponse 38 true = some (out, true) ∧
    ∃ line fs, UpstreamHead (hopResponse.take 38) line fs := by
  have hhead : ∃ resp, parseResponse hopResponse = .complete resp 38 ∧ resp.statusCode = 200 := by
    refine ⟨⟨.http11, lit ['O','K'], 200, [⟨lit ['C','o','n','n','e','c','t','i','o','n'], lit ['x'], lit ['x']⟩,
      ⟨lit ['X'], lit ['1'], lit ['1']⟩], 0, false, 0, false, true, false, false⟩, ?_, rfl⟩
    decide
  obtain ⟨resp, hp, hstatus⟩ := hhead
  have hbuild : ∃ out, buildH1ForwardResponseHeaders 64 hopForwarding hopResponse 38 true = some (out, true) := by
    refine ⟨lit ['H','T','T','P','/','1','.','1',' ','2','0','0',' ','O','K','\r','\n','C','o','n','n','e',
      'c','t','i','o','n',':','x','\r','\n','Y',':',' ','2','\r','\n','\r','\n'], ?_⟩
    decide
  obtain ⟨out, hbuild⟩ := hbuild
  obtain ⟨line, fs, -, -, hfs, -⟩ := forwarded_head_exact hp hstatus.symm (by rw [hstatus]; decide) hbuild
  exact ⟨resp, out, hp, hstatus, hbuild, line, fs, hfs⟩

/-! ## One meaning -/

/-- A line with the name and the value of a field, and blanks around the value. -/
def Denotes (g : RawField) (f : Field) : Prop :=
  g.name = f.name ∧ ∃ l r, (∀ c ∈ l, isOws c = true) ∧ (∀ c ∈ r, isOws c = true) ∧ g.raw = l ++ f.value ++ r

lemma denotes_field (g : RawField) : Denotes g g.field := by
  refine ⟨rfl, g.raw.takeWhile isOws, (g.raw.dropWhile isOws).rtakeWhile isOws, ?_, ?_, ?_⟩
  · exact fun c hc => List.mem_takeWhile_imp hc
  · exact fun c hc => List.mem_rtakeWhile_imp hc
  · rw [List.append_assoc]
    change g.raw = g.raw.takeWhile isOws ++ ((g.raw.dropWhile isOws).rdropWhile isOws ++ (g.raw.dropWhile isOws).rtakeWhile isOws)
    rw [List.rdropWhile_append_rtakeWhile, List.takeWhile_append_dropWhile]

lemma denotes_mutation (m : RespHeaderMutation) : Denotes m.rawField m.field :=
  ⟨rfl, [ch ' '], [], by simp [isOws], by simp, by simp [RespHeaderMutation.rawField, RespHeaderMutation.field]⟩

lemma UpstreamHead.plain_fields (h : UpstreamHead head line fs)
    (hplain : ∀ g ∈ fs, isConnection g = false ∧ isFraming g = false) (hdrain : f.draining = false)
    (hforce : f.forceConnectionClose = false) :
    forwardedFields f head fs = applyMutations RawField.name RespHeaderMutation.rawField fs f.log.committed ∧
      f.nominatedFraming head = false := by
  have hnominates : ∀ name, f.upstreamConnectionNominates head name = false := by
    intro name
    rcases Decidable.em (f.status = 101) with hs | hs
    · rw [Forwarding.upstreamConnectionNominates, if_pos hs]
    · rw [← Bool.not_eq_true, h.nominates hs]
      rintro ⟨g, hg, hname, -⟩
      have hconn := (hplain g hg).1
      rw [isConnection_iff.2 (by rw [hname]; decide)] at hconn
      cases hconn
  have hframing : f.nominatedFraming head = false := by
    rw [Forwarding.nominatedFraming, hnominates, hnominates]
    rfl
  have hcloses : f.closes head = false := by
    rw [Forwarding.closes, hdrain, hforce, hframing]
    rfl
  refine ⟨?_, hframing⟩
  have hkeyed := keyed_edits (fun _ => rfl : ∀ m, RawField.name (RespHeaderMutation.rawField m) = m.name) f.log.committed
  rw [applyMutations_eq, Edit.applyAll_eq hkeyed, survivors_edits, forwardedFields, hcloses, if_neg Bool.false_ne_true,
    List.append_nil]
  congr 1
  have hall : (fs.flatMap (forwardedLine f head)).filter (fun _ => true) =
      fs.filter fun g => !Edit.dropped (f.log.committed.map (RespHeaderMutation.edit RespHeaderMutation.rawField))
        (lower g.name) := by
    apply filter_flatMap_eq
    intro g hg
    obtain ⟨hconn, hframe⟩ := hplain g hg
    rw [isFraming] at hframe
    have hsupp : f.baseSuppressed head g.name =
        Edit.dropped (f.log.committed.map (RespHeaderMutation.edit RespHeaderMutation.rawField)) (lower g.name) := by
      rw [Forwarding.baseSuppressed, hframe, hcloses, hnominates, dropped_edits]
      simp only [Bool.false_and, Bool.false_eq_true, if_false]
    rw [forwardedLine_other hconn, hsupp]
    cases Edit.dropped (f.log.committed.map (RespHeaderMutation.edit RespHeaderMutation.rawField)) (lower g.name) <;> rfl
  rwa [List.filter_true] at hall

lemma forall₂_filter {α β : Type} {R : α → β → Prop} {p q} (hpq : ∀ {a b}, R a b → p a = q b)
    {l l'} (h : List.Forall₂ R l l') : List.Forall₂ R (l.filter p) (l'.filter q) := by
  induction h with
  | nil => exact .nil
  | cons hab _ ih =>
    rw [List.filter_cons, List.filter_cons, hpq hab]
    split_ifs
    · exact .cons hab ih
    · exact ih

lemma denotes_applyMutations {gs fields} (h : List.Forall₂ Denotes gs fields) (log : List RespHeaderMutation) :
    List.Forall₂ Denotes (applyMutations RawField.name RespHeaderMutation.rawField gs log)
      (applyMutations Field.name RespHeaderMutation.field fields log) := by
  induction log generalizing gs fields with
  | nil => exact h
  | cons m log ih =>
    apply ih
    have hfilter : List.Forall₂ Denotes (gs.filter fun g => lower g.name ≠ lower m.name)
        (fields.filter fun g => lower g.name ≠ lower m.name) := by
      apply forall₂_filter _ h
      intro g field hg
      rw [hg.1]
    rw [RespHeaderMutation.apply, RespHeaderMutation.apply]
    have hone : List.Forall₂ Denotes [m.rawField] [m.field] := .cons (denotes_mutation m) .nil
    cases m.mode with
    | set => exact List.rel_append hfilter hone
    | add => exact List.rel_append h hone
    | remove => exact hfilter

lemma denotes_fields (gs : List RawField) : List.Forall₂ Denotes gs (gs.map RawField.field) := by
  induction gs with
  | nil => exact .nil
  | cons g gs ih => exact .cons (denotes_field g) ih

lemma h2Forwards_plain {resp : ParsedResponse} (hplain : ∀ h ∈ resp.headers,
    httpHeaderNameEqCi h.name connectionName = false ∧ httpHeaderNameEqCi h.name contentLengthName = false) (isHead : Bool) :
    resp.headers.filter (h2Forwards resp isHead) = resp.headers.filter fun h => !h2DropResponseHeader h.name := by
  apply List.filter_congr
  intro h hh
  have hnone : (resp.headers.any fun g =>
      httpHeaderNameEqCi g.name connectionName && h2NameInConnectionTokens g.value h.name) = false := by
    rw [List.any_eq_false]
    intro g hg
    rw [(hplain g hg).1, Bool.false_and]
    exact Bool.false_ne_true
  rw [h2Forwards, hnone, (hplain h hh).2]
  simp

end head

def isManagedName (name : Str) : Bool :=
  httpHeaderNameEqCi name connectionName || httpHeaderNameEqCi name contentLengthName ||
    httpHeaderNameEqCi name transferEncodingName

/-- **One meaning for response header mutations.** A log of valid entries that was recorded and committed changes the
headers of the gateway's own responses, those forwarded over HTTP/1 and those forwarded over HTTP/2 in the same way, and
reading a header back while the log is recorded gives its first value after these changes. -/
theorem mutations_agree {log : List RespHeaderMutation} (hne : log ≠ []) (hcount : log.length ≤ kMaxRespHeaderMutations)
    (hvalid : ∀ m ∈ log, m.valid = true) :
    let recorded := log.foldl RespHeaderLog.recordRespHeader {}
    let c := recorded.rutHelperRespCommitHeaders
    let mutated := fun fields => applyMutations Field.name RespHeaderMutation.field fields log
    (∀ fields capacity, fields.length + log.length ≤ capacity →
      ∃ suppress, collectEffectiveResponseHeaders c fields capacity = some ⟨mutated fields, suppress⟩) ∧
    (∀ upstream resp headerLen, parseResponse upstream = .complete resp headerLen →
      (∀ f ∈ headFields (upstream.take headerLen), isManagedName f.name = false) →
      ∃ line emitted, List.Forall₂ Denotes emitted (mutated (headFields (upstream.take headerLen))) ∧
        ∀ cap keepAlive,
          (∀ r, buildH1ForwardResponseHeaders cap ⟨resp.statusCode, c, false, false⟩ upstream headerLen keepAlive = some r →
            r = (line ++ crlf ++ (emitted.flatMap RawField.bytes ++ crlf), keepAlive)) ∧
          ((resp.statusCode = 101 → ∀ m ∈ log, isHandshakeName m.name = false) →
            (line ++ crlf ++ (emitted.flatMap RawField.bytes ++ crlf)).length ≤ cap →
            (buildH1ForwardResponseHeaders cap ⟨resp.statusCode, c, false, false⟩ upstream headerLen keepAlive).isSome)) ∧
    (∀ upstream resp headerLen isHead, parseResponse upstream = .complete resp headerLen → resp.headersTruncated = false →
      (∀ f ∈ headFields (upstream.take headerLen), isManagedName f.name = false) →
      h2ProxyFinishHeaders c resp isHead =
        .ok ((mutated (headFields (upstream.take headerLen))).filter fun f => !h2DropResponseHeader f.name)) ∧
    ∀ fields name, recorded.rutHelperRespHeader name ((fields.find? fun f => lower f.name = lower name).map Field.value) =
      ((mutated fields).find? fun f => lower f.name = lower name).map Field.value := by
  dsimp only
  have hrecorded : log.foldl RespHeaderLog.recordRespHeader {} = { entries := log } := by
    rw [record_all (by simpa using hcount)]
    rfl
  rw [hrecorded]
  have hcommitted : RespHeaderLog.committed (RespHeaderLog.rutHelperRespCommitHeaders { entries := log }) = log :=
    List.take_length
  have hover : (RespHeaderLog.rutHelperRespCommitHeaders { entries := log }).overflow = false := rfl
  generalize RespHeaderLog.rutHelperRespCommitHeaders { entries := log } = c at hcommitted hover
  refine ⟨?_, ?_, ?_, ?_⟩
  · intro fields capacity hroom
    obtain ⟨out, hout⟩ := collect_isSome hvalid
      (show (⟨fields, false⟩ : EffectiveHeaders).fields.length + log.length ≤ capacity from hroom)
    have hfields := collect_fields hout
    refine ⟨out.suppressDefaultContentType, ?_⟩
    rw [collectEffectiveResponseHeaders, hover, if_neg Bool.false_ne_true, if_neg (by omega), hcommitted, hout, ← hfields]
  · intro upstream resp headerLen hp hplain
    obtain ⟨line, fs, hhead, hlen, hfields⟩ := upstreamHead_of_parse hp
    rw [hfields] at hplain ⊢
    have hlines : ∀ g ∈ fs, isConnection g = false ∧ isFraming g = false := by
      intro g hg
      have hname : isManagedName g.name = false := hplain g.field (List.mem_map_of_mem hg)
      rw [isManagedName, Bool.or_eq_false_iff, Bool.or_eq_false_iff] at hname
      exact ⟨hname.1.1, by rw [isFraming, hname.1.2, hname.2]; rfl⟩
    obtain ⟨hforwarded, hframing⟩ :=
      UpstreamHead.plain_fields (f := ⟨resp.statusCode, c, false, false⟩) hhead hlines rfl rfl
    rw [hcommitted] at hforwarded
    refine ⟨line, _, denotes_applyMutations (denotes_fields fs) log, ?_⟩
    intro cap keepAlive
    have hbuild := fun hadmits => build_eq cap keepAlive (f := ⟨resp.statusCode, c, false, false⟩)
      hhead hlen hadmits
    rw [hforwarded, hframing, Bool.not_false, Bool.and_true] at hbuild
    constructor
    · intro r hr
      rw [hbuild (admits_of_build hr)] at hr
      obtain ⟨o, ho, rfl⟩ := Option.map_eq_some_iff.1 hr
      rw [Output.write_eq_some.1 ho]
      rfl
    · intro hswitch hroom
      have hadmits : Forwarding.Admits ⟨resp.statusCode, c, false, false⟩ := by
        refine ⟨.inl (by rwa [hcommitted]), hover, ?_⟩
        intro m hm
        rw [hcommitted] at hm
        exact ⟨hvalid m hm, fun hs => hswitch hs m hm⟩
      rw [hbuild hadmits, Option.isSome_map, Output.write_isSome]
      simpa [Output.empty] using hroom
  · intro upstream resp headerLen isHead hp htr hplain
    have hfields := parseResponse_fields hp htr
    obtain ⟨_, _, _, resp₀, _, _, _, hfresh, happ⟩ := parseResponse_lines hp
    have hlength := applyResponseHeaders_length happ (by rw [hfresh.headers]; exact Nat.zero_le _)
    have hheaders : ∀ h ∈ resp.headers,
        httpHeaderNameEqCi h.name connectionName = false ∧ httpHeaderNameEqCi h.name contentLengthName = false := by
      intro h hh
      have hname : isManagedName h.name = false :=
        hplain ⟨h.name, h.value⟩ (by rw [hfields]; exact List.mem_map_of_mem hh)
      rw [isManagedName, Bool.or_eq_false_iff, Bool.or_eq_false_iff] at hname
      exact hname.1
    have hshort := List.length_filter_le (fun h => !h2DropResponseHeader h.name) resp.headers
    have hlist : ((resp.headers.filter fun h => !h2DropResponseHeader h.name).map fun h => (⟨h.name, h.value⟩ : Field)) =
        (headFields (upstream.take headerLen)).filter fun f => !h2DropResponseHeader f.name := by
      rw [hfields, List.filter_map]
      rfl
    rw [h2ProxyFinishHeaders, htr, if_neg Bool.false_ne_true]
    rw [hover, if_neg Bool.false_ne_true, hcommitted, h2Forwards_plain hheaders,
      List.take_of_length_le (hshort.trans hlength), hlist, h2ApplyMutations_filter hvalid]
    rw [hfields, List.length_map, kMaxForwardHeaders]
    omega
  · intro fields name
    exact rutHelperRespHeader_eq { entries := log } name fields

def backAndForth : List RespHeaderMutation :=
  [⟨lit ['X'], lit ['1'], .set⟩, ⟨lit ['x'], lit ['2'], .add⟩, ⟨lit ['X'], [], .remove⟩, ⟨lit ['Y'], lit ['3'], .add⟩]

theorem backAndForth_agrees : (∀ m ∈ backAndForth, m.valid = true) ∧
    ∃ suppress, collectEffectiveResponseHeaders
      (backAndForth.foldl RespHeaderLog.recordRespHeader {}).rutHelperRespCommitHeaders [⟨lit ['x'], lit ['0']⟩] 8 =
        some ⟨[⟨lit ['Y'], lit ['3']⟩], suppress⟩ := by
  have hvalid : ∀ m ∈ backAndForth, m.valid = true := by decide
  obtain ⟨suppress, hcollect⟩ := (mutations_agree (by decide : backAndForth ≠ []) (by decide) hvalid).1
    [⟨lit ['x'], lit ['0']⟩] 8 (by decide)
  exact ⟨hvalid, suppress, hcollect⟩

end Rut.Conn
