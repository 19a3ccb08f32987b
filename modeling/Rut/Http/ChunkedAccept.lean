import Rut.Http.ChunkedStream

/-!
# The streams the chunked decoder accepts

No state of the decoder of `src/runtime/chunked_parser.cc` is a dead end: bytes that are not refused can be completed to
an encoded body. With the encodings read back (`run_encode`) and every accepted stream cut into pieces
(`encode_of_done`), the verdicts on a stream are exactly those of the framing.
-/

namespace Rut.Http.Chunked

/-- Some bytes lead the decoder to the end of a body. -/
def Viable (p : ChunkedParser) : Prop := ∃ bytes, (run p bytes).status = .done

lemma Viable.of_advance {p p' c} (h : switch p c = .advance p') (hv : Viable p') : Viable p := by
  obtain ⟨bytes, hdone⟩ := hv
  exact ⟨c :: bytes, by rw [run_advance h]; exact hdone⟩

lemma viable_reset : Viable .reset := ⟨lit ['0','\r','\n','\r','\n'], by decide⟩

lemma viable_trailer {p} (hs : p.state = .trailer) : Viable p := by
  have hcr : switch p (ch '\r') = .advance { p with state := .trailerLF } := by simp [switch, hs]
  have hlf : switch { p with state := .trailerLF } (ch '\n') = .finish { p with state := .complete } := by simp [switch]
  exact .of_advance hcr ⟨[ch '\n'], by rw [run_finish hlf]⟩

lemma viable_dataCR {p} (hs : p.state = .dataCR) : Viable p := by
  have hcr : switch p (ch '\r') = .advance { p with state := .dataLF } := by simp [switch, hs]
  have hlf : switch { p with state := .dataLF } (ch '\n') = .advance .reset := by simp [switch, ChunkedParser.reset]
  exact .of_advance hcr (.of_advance hlf viable_reset)

lemma viable_data {p} (hs : p.state = .data) (wf : p.Wf) : Viable p := by
  have hstate := deliver_state (p := p) le_rfl
  rw [if_pos rfl] at hstate
  obtain ⟨bytes, hdone⟩ := viable_dataCR hstate
  refine ⟨List.replicate p.chunkRemaining.toNat 0 ++ bytes, ?_⟩
  rw [run_bulk hs (wf hs) le_rfl (by simp), Outcome.after_status, List.drop_left' List.length_replicate]
  exact hdone

lemma viable_sizeLF {p} (hs : p.state = .sizeLF) : Viable p := by
  by_cases hzero : p.chunkRemaining = 0
  · have hlf : switch p (ch '\n') = .advance { p with state := .trailer } := by simp [switch, hs, hzero]
    exact .of_advance hlf (viable_trailer rfl)
  · have hlf : switch p (ch '\n') = .advance { p with state := .data } := by simp [switch, hs, hzero]
    exact .of_advance hlf (viable_data rfl (switch_advance_wf hlf))

/-- A decoder that has read no digit is the one at the start of a chunk. -/
def ChunkedParser.Fresh (p : ChunkedParser) : Prop := p.state = .size → p.hasDigits = false → p = .reset

/-- No state of the decoder is a dead end. -/
lemma ChunkedParser.Wf.viable {p} (wf : p.Wf) (fresh : p.Fresh) : Viable p := by
  cases hs : p.state with
  | size =>
    by_cases hd : p.hasDigits = true
    · have hcr : switch p (ch '\r') = .advance { p with state := .sizeLF } := by
        have hx : hexVal (ch '\r') = none := by decide
        simp [switch, hs, hd, hx]
      exact .of_advance hcr (viable_sizeLF rfl)
    · rw [fresh hs (Bool.eq_false_iff.mpr hd)]
      exact viable_reset
  | sizeLF => exact viable_sizeLF hs
  | extension =>
    have hcr : switch p (ch '\r') = .advance { p with state := .sizeLF } := by simp [switch, hs]
    exact .of_advance hcr (viable_sizeLF rfl)
  | data => exact viable_data hs wf
  | dataCR => exact viable_dataCR hs
  | dataLF =>
    have hlf : switch p (ch '\n') = .advance .reset := by simp [switch, hs, ChunkedParser.reset]
    exact .of_advance hlf viable_reset
  | trailer => exact viable_trailer hs
  | trailerLF =>
    have hlf : switch p (ch '\n') = .finish { p with state := .complete } := by simp [switch, hs]
    exact ⟨[ch '\n'], by rw [run_finish hlf]⟩
  | trailerLine =>
    have hcr : switch p (ch '\r') = .advance { p with state := .trailerLineLF } := by simp [switch, hs]
    have hlf : switch { p with state := .trailerLineLF } (ch '\n') = .advance { p with state := .trailer } := by
      simp [switch]
    exact .of_advance hcr (.of_advance hlf (viable_trailer rfl))
  | trailerLineLF =>
    have hlf : switch p (ch '\n') = .advance { p with state := .trailer } := by simp [switch, hs]
    exact .of_advance hlf (viable_trailer rfl)
  | complete =>
    refine ⟨[0], ?_⟩
    rw [run_stop (by simp [switch, hs])]

lemma switch_advance_fresh {p p' c} (h : switch p c = .advance p') : p'.Fresh := by
  intro hs hd
  grind [switch, ChunkedParser.reset]

lemma run_fresh {p} (input : List UInt8) (fresh : p.Fresh) (hmore : (run p input).status = .needMore) :
    (run p input).parser.Fresh := by
  induction input generalizing p with
  | nil => exact fresh
  | cons c rest ih =>
    cases h : switch p c with
    | advance p' =>
      rw [run_advance h] at hmore ⊢
      exact ih (switch_advance_fresh h) hmore
    | deliver =>
      rw [run_deliver h] at hmore ⊢
      refine ih (fun hs => ?_) hmore
      have hdata := switch_deliver h
      simp only [ChunkedParser.deliver, hdata] at hs
      split_ifs at hs
    | reject =>
      rw [run_reject h] at hmore
      cases hmore
    | finish p' =>
      rw [run_finish h] at hmore
      cases hmore
    | stop =>
      rw [run_stop h] at hmore
      cases hmore

lemma run_done_iff (s : List UInt8) :
    (run .reset s).status = .done ↔ ∃ chunks last trailers rest, s = encode chunks last trailers ++ rest := by
  constructor
  · exact encode_of_done le_rfl
  · rintro ⟨chunks, last, trailers, rest, rfl⟩
    exact (run_encode chunks last trailers rest).2.2

lemma run_ne_data (p : ChunkedParser) (s : List UInt8) : (run p s).status ≠ .data := by
  induction s generalizing p with
  | nil => exact nofun
  | cons c rest ih =>
    rw [run_cons]
    split
    · exact ih _
    · exact nofun
    · exact ih _
    · exact nofun
    · exact nofun

/-- The decoder refuses a stream exactly when nothing that follows can make it an encoded body. -/
lemma run_error_iff (s : List UInt8) :
    (run .reset s).status = .error ↔ ∀ more, (run .reset (s ++ more)).status ≠ .done := by
  have hwf : ChunkedParser.reset.Wf := Reachable.reset.wf
  constructor
  · intro herr more
    rw [run_append, herr, if_neg nofun, herr]
    exact nofun
  · intro hdead
    cases hst : (run .reset s).status with
    | error => rfl
    | data => exact absurd hst (run_ne_data _ _)
    | done => exact absurd hst (by simpa using hdead [])
    | needMore =>
      obtain ⟨more, hdone⟩ := (run_wf s hwf).viable (run_fresh s (fun _ _ => rfl) hst)
      refine absurd ?_ (hdead more)
      rw [run_append, hst, if_pos rfl]
      exact hdone

/-- However a stream arrives, the decoder accepts it exactly when an encoded body stands at its beginning, refuses it
exactly when no continuation can make that so, and the body and what follows it are determined by the stream. -/
theorem drainAll_accepts_exactly (segs : List (List UInt8)) :
    ((drainAll .reset segs).status = .done ↔
      ∃ chunks last trailers rest, segs.flatten = encode chunks last trailers ++ rest) ∧
    ((drainAll .reset segs).status = .error ↔
      ∀ more chunks last trailers rest, segs.flatten ++ more ≠ encode chunks last trailers ++ rest) ∧
    ∀ chunks last trailers rest chunks' last' trailers' rest',
      segs.flatten = encode chunks last trailers ++ rest → segs.flatten = encode chunks' last' trailers' ++ rest' →
      chunks.flatMap Chunk.data = chunks'.flatMap Chunk.data ∧ rest = rest' := by
  rw [drainAll_eq_run segs Reachable.reset.wf]
  refine ⟨run_done_iff _, ?_, ?_⟩
  · simp only [run_error_iff, ne_eq, run_done_iff, not_exists]
  · intro chunks last trailers rest chunks' last' trailers' rest' h h'
    obtain ⟨hbody, hlen, -⟩ := run_encode chunks last trailers rest
    obtain ⟨hbody', hlen', -⟩ := run_encode chunks' last' trailers' rest'
    rw [← h] at hbody hlen
    rw [← h'] at hbody' hlen'
    exact ⟨hbody.symm.trans hbody', (List.append_inj (h.symm.trans h') (hlen.symm.trans hlen')).2⟩

end Rut.Http.Chunked
