import Rut.Http.Grammar
import Rut.Http.ResponseFraming

/-!
# Responses made of parts

The other direction of the response parser: a head that is put together from a status line and lines of fields is parsed
as these say. Fields beyond the capacity of the list are applied, but not stored.
-/

namespace Rut.Http

open Incremental

structure Stored (code : Nat) (H : List Header) (resp : ParsedResponse) : Prop where
  status : resp.statusCode = code
  headers : resp.headers = H.take kMaxHeaders
  truncated : resp.headersTruncated = true ↔ kMaxHeaders < H.length

section apply

variable {h : Header} {hs H : List Header} {resp resp' : ParsedResponse} {n code : Nat}

lemma applySemanticHeaderResponse_status (hname : ch '\r' ∉ h.name)
    (ha : applySemanticHeaderResponse h.name h.value resp = some resp') : resp'.statusCode = resp.statusCode := by
  change applySemanticHeaderResponse h.field.name h.field.value resp = some resp' at ha
  rw [applySemanticHeaderResponse_eq hname] at ha
  split_ifs at ha
  · obtain ⟨cl, -, -, rfl⟩ := applyContentLengthResponse_some ha
    rfl
  · cases ha
    obtain ⟨ka, cc, heq⟩ := matchConnectionResponseTokens_frame (listTokens h.field.value) resp
    rw [matchConnectionResponse, heq]
  · cases ha
    rfl
  · cases ha
    rfl

lemma Stored.store (hst : Stored code H resp) (h : Header) : Stored code (H ++ [h]) (storeResponseHeader h resp) := by
  have hcount : resp.headers.length = min kMaxHeaders H.length := by rw [hst.headers, List.length_take]
  rw [storeResponseHeader]
  split_ifs with hroom
  · refine ⟨hst.status, ?_, ?_⟩
    · rw [List.take_of_length_le (by rw [List.length_append, List.length_singleton]; omega)]
      rw [hst.headers, List.take_of_length_le (by omega)]
    · change resp.headersTruncated = true ↔ _
      rw [hst.truncated, List.length_append, List.length_singleton]
      omega
  · refine ⟨hst.status, ?_, ?_⟩
    · rw [List.take_append_of_le_length (by omega)]
      exact hst.headers
    · rw [List.length_append, List.length_singleton]
      exact ⟨fun _ => by omega, fun _ => rfl⟩

lemma Stored.step (hst : Stored code H resp) (hname : ch '\r' ∉ h.name) (ha : applyResponseHeader h resp = some resp') :
    Stored code (H ++ [h]) resp' := by
  obtain ⟨resp₁, hsem, rfl⟩ := Option.map_eq_some_iff.mp ha
  have hstore := hst.store h
  obtain ⟨hheaders, htruncated⟩ := applySemanticHeaderResponse_frame hsem
  have hstatus := applySemanticHeaderResponse_status hname hsem
  have hafter : Stored code (H ++ [h]) resp₁ :=
    ⟨hstatus.trans hstore.status, hheaders.trans hstore.headers, by rw [htruncated]; exact hstore.truncated⟩
  rw [countContentLength]
  split_ifs
  · exact ⟨hafter.status, hafter.headers, hafter.truncated⟩
  · exact hafter

lemma Stored.run (hst : Stored code H resp) (hname : ∀ h ∈ hs, ch '\r' ∉ h.name)
    (ha : applyResponseHeaders hs resp = some resp') : Stored code (H ++ hs) resp' := by
  induction hs generalizing H resp with
  | nil =>
    cases ha
    rw [List.append_nil]
    exact hst
  | cons h hs ih =>
    rw [applyResponseHeaders] at ha
    cases hh : applyResponseHeader h resp with
    | none =>
      rw [hh] at ha
      cases ha
    | some resp₁ =>
      rw [hh] at ha
      have hrest := ih (hst.step (hname h List.mem_cons_self) hh) (fun g hg => hname g (List.mem_cons_of_mem _ hg)) ha
      rwa [List.append_assoc] at hrest

lemma applyResponseHeader_some (hname : ch '\r' ∉ h.name) (hlen : h.field.Named contentLengthName → IsDecimal h.value n)
    (hsame : resp.hasContentLength = true → resp.contentLength = n) :
    ∃ resp', applyResponseHeader h resp = some resp' ∧ (resp'.hasContentLength = true → resp'.contentLength = n) := by
  have hstore : (storeResponseHeader h resp).hasContentLength = true → (storeResponseHeader h resp).contentLength = n := by
    rw [storeResponseHeader]
    split_ifs
    · exact hsame
    · exact hsame
  have hsem : ∃ resp₁, applySemanticHeaderResponse h.name h.value (storeResponseHeader h resp) = some resp₁ ∧
      (resp₁.hasContentLength = true → resp₁.contentLength = n) := by
    change ∃ resp₁, applySemanticHeaderResponse h.field.name h.field.value (storeResponseHeader h resp) = some resp₁ ∧ _
    rw [applySemanticHeaderResponse_eq hname]
    split_ifs with hcl hconn hte
    · rw [applyContentLengthResponse, show h.field.value = h.value from rfl, parseUint_of_isDecimal (hlen hcl)]
      dsimp only
      split_ifs with hhas hne
      · exact absurd (hstore hhas) hne
      · exact ⟨_, rfl, hstore⟩
      · exact ⟨_, rfl, fun _ => rfl⟩
    · obtain ⟨ka, cc, heq⟩ :=
        matchConnectionResponseTokens_frame (listTokens h.field.value) (storeResponseHeader h resp)
      rw [matchConnectionResponse, heq]
      exact ⟨_, rfl, hstore⟩
    · exact ⟨_, rfl, hstore⟩
    · exact ⟨_, rfl, hstore⟩
  obtain ⟨resp₁, hsem, hkept⟩ := hsem
  refine ⟨countContentLength h.name resp₁, by rw [applyResponseHeader, hsem]; rfl, ?_⟩
  rw [countContentLength]
  split_ifs
  · exact hkept
  · exact hkept

lemma applyResponseHeaders_some (hname : ∀ h ∈ hs, ch '\r' ∉ h.name)
    (hlen : ∀ h ∈ hs, h.field.Named contentLengthName → IsDecimal h.value n)
    (hsame : resp.hasContentLength = true → resp.contentLength = n) :
    ∃ resp', applyResponseHeaders hs resp = some resp' := by
  induction hs generalizing resp with
  | nil => exact ⟨resp, rfl⟩
  | cons h hs ih =>
    obtain ⟨resp₁, hh, hsame₁⟩ :=
      applyResponseHeader_some (hname h List.mem_cons_self) (hlen h List.mem_cons_self) hsame
    obtain ⟨resp', hrest⟩ := ih (fun g hg => hname g (List.mem_cons_of_mem _ hg))
      (fun g hg => hlen g (List.mem_cons_of_mem _ hg)) hsame₁
    exact ⟨resp', by rw [applyResponseHeaders, hh]; exact hrest⟩

end apply

/-! ## The head -/

lemma parseResponseHeaders_lines {turns resp resp'} {ps : List HeaderParts}
    (hturns : ps.length ≤ turns) (ha : applyResponseHeaders (ps.map HeaderParts.header) resp = some resp') (r : Str) :
    parseResponseHeaders turns resp (ps.flatMap HeaderParts.bytes ++ ch '\r' :: ch '\n' :: r) = .done resp' r := by
  induction ps generalizing turns resp with
  | nil =>
    cases ha
    unfold parseResponseHeaders
    simp
  | cons p ps ih =>
    obtain ⟨turns, rfl⟩ : ∃ t, turns = t + 1 := ⟨turns - 1, by rw [List.length_cons] at hturns; omega⟩
    rw [List.map_cons, applyResponseHeaders] at ha
    have hcut : (p :: ps).flatMap HeaderParts.bytes ++ ch '\r' :: ch '\n' :: r =
        p.line ++ ch '\r' :: ch '\n' :: (ps.flatMap HeaderParts.bytes ++ ch '\r' :: ch '\n' :: r) := by
      simp [HeaderParts.bytes]
    rw [hcut, parseResponseHeaders_line]
    cases hp : applyResponseHeader p.header resp with
    | none =>
      rw [hp] at ha
      cases ha
    | some resp₁ =>
      rw [hp] at ha
      exact ih (by simpa using hturns) ha

lemma length_le_bytes (ps : List HeaderParts) : ps.length ≤ (ps.flatMap HeaderParts.bytes).length := by
  induction ps with
  | nil => exact le_rfl
  | cons p ps ih =>
    have hbytes : 2 ≤ p.bytes.length := by simp [HeaderParts.bytes]
    rw [List.flatMap_cons, List.length_append, List.length_cons]
    omega

def responseBytes (line : Str) (ps : List HeaderParts) (body : Str) : Str :=
  line ++ ch '\r' :: ch '\n' :: (ps.flatMap HeaderParts.bytes ++ ch '\r' :: ch '\n' :: body)

lemma parseResponse_parts {line : Str} {ps resp₀ resp}
    (hline : 12 ≤ line.length) (hstatus : ∀ t, parseStatusLine (line ++ ch '\r' :: ch '\n' :: t) = .done resp₀ t)
    (ha : applyResponseHeaders (ps.map HeaderParts.header) resp₀ = some resp) (body : Str) :
    parseResponse (responseBytes line ps body) =
      .complete resp ((responseBytes line ps body).length - body.length) := by
  have hcount := length_le_bytes ps
  have hlength : (responseBytes line ps body).length =
      line.length + ((ps.flatMap HeaderParts.bytes).length + (body.length + 2) + 2) := by
    simp only [responseBytes, List.length_append, List.length_cons]
  have hhead : parseResponseHead (responseBytes line ps body) = .done resp body := by
    simp only [parseResponseHead, Bind.bind, Reader.bind]
    rw [hlength]
    simp only [responseBytes, hstatus]
    exact parseResponseHeaders_lines (by omega) ha body
  rw [parseResponse, if_neg (by omega), hhead]

lemma parseResponse_append {b resp h} (hp : parseResponse b = .complete resp h) (t : Str) :
    parseResponse (b ++ t) = .complete resp h ∧ h ≤ b.length := by
  rcases ite_eq_iff.mp hp with ⟨-, hp⟩ | ⟨-, hp⟩
  · cases hp
  cases hhead : parseResponseHead b with
  | fail =>
    rw [hhead] at hp
    cases hp
  | stall e =>
    rw [hhead] at hp
    cases e with
    | needMore => cases hp
    | maybe => rcases ite_eq_iff.mp hp with ⟨-, hp⟩ | ⟨-, hp⟩ <;> cases hp
  | done resp₁ rest =>
    rw [hhead] at hp
    cases hp
    obtain ⟨resp₀, r, hstatus, hheaders⟩ := Reader.bind_eq_done.mp hhead
    obtain ⟨head, tail, version, code, rfl, hlength, htail, hcode, hfirst, rfl⟩ := parseStatusLine_parts hstatus
    obtain ⟨ps, rfl, happly⟩ := parseResponseHeaders_done hheaders
    have hline : ∀ t, parseStatusLine (head ++ tail ++ ch '\r' :: ch '\n' :: t) =
        .done (statusResponse version code tail) t := by
      intro t
      rw [List.append_assoc]
      exact parseStatusLine_of_parts hlength htail hcode hfirst t
    have hbytes : head ++ (tail ++ ch '\r' :: ch '\n' :: (ps.flatMap HeaderParts.bytes ++ ch '\r' :: ch '\n' :: rest)) ++ t =
        responseBytes (head ++ tail) ps (rest ++ t) := by
      simp [responseBytes]
    refine ⟨?_, Nat.sub_le _ _⟩
    rw [hbytes, parseResponse_parts (by rw [List.length_append]; omega) hline happly, ← hbytes]
    simp only [List.length_append, List.length_cons]
    congr 1
    omega

end Rut.Http
