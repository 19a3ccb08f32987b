import Rut.Http.Chunked

/-!
# Segmentation of chunked bodies

`run` reads a stream byte by byte with no notion of a feed, and every sequence of feeds computes `run` of the
concatenated segments (`drainAll_eq_run`). The invariant is `ChunkedParser.Wf`: a decoder that waits for data still has
data to wait for. The second half reads encoded bodies back: `Chunk`, `LastChunk` and `TrailerLine` are the pieces of an
encoding, and `run_encode` follows the decoder over them.
-/

namespace Rut.Http.Chunked

def ChunkedParser.Wf (p : ChunkedParser) : Prop := p.state = .data → 0 < p.chunkRemaining.toNat

def run : ChunkedParser → List UInt8 → Outcome
  | p, [] => ⟨p, [], 0, .needMore⟩
  | p, c :: rest =>
    match switch p c with
    | .advance p' => (run p' rest).after [] 1
    | .reject => ⟨p, [], 0, .error⟩
    | .deliver => (run (p.deliver 1) rest).after [c] 1
    | .finish p' => ⟨p', [], 1, .done⟩
    | .stop => ⟨p, [], 0, .done⟩

@[simp] lemma Outcome.after_zero (o : Outcome) : o.after [] 0 = o := by
  simp [Outcome.after]

@[simp] lemma Outcome.after_after (o : Outcome) (a b : List UInt8) (m n : Nat) :
    (o.after b n).after a m = o.after (a ++ b) (m + n) := by
  simp [Outcome.after, Nat.add_assoc]

@[simp] lemma Outcome.after_status (o : Outcome) (a : List UInt8) (n : Nat) : (o.after a n).status = o.status := rfl

@[simp] lemma Outcome.after_parser (o : Outcome) (a : List UInt8) (n : Nat) : (o.after a n).parser = o.parser := rfl

@[simp] lemma Outcome.after_body (o : Outcome) (a : List UInt8) (n : Nat) : (o.after a n).body = a ++ o.body := rfl

@[simp] lemma Outcome.after_consumed (o : Outcome) (a : List UInt8) (n : Nat) :
    (o.after a n).consumed = n + o.consumed := rfl

section Step
variable {p p' : ChunkedParser} {c : UInt8} {rest : List UInt8}

lemma run_cons : run p (c :: rest) =
    match switch p c with
    | .advance p' => (run p' rest).after [] 1
    | .reject => ⟨p, [], 0, .error⟩
    | .deliver => (run (p.deliver 1) rest).after [c] 1
    | .finish p' => ⟨p', [], 1, .done⟩
    | .stop => ⟨p, [], 0, .done⟩ := rfl

lemma run_advance (h : switch p c = .advance p') : run p (c :: rest) = (run p' rest).after [] 1 := by
  rw [run_cons, h]

lemma run_deliver (h : switch p c = .deliver) : run p (c :: rest) = (run (p.deliver 1) rest).after [c] 1 := by
  rw [run_cons, h]

lemma run_reject (h : switch p c = .reject) : run p (c :: rest) = ⟨p, [], 0, .error⟩ := by
  rw [run_cons, h]

lemma run_finish (h : switch p c = .finish p') : run p (c :: rest) = ⟨p', [], 1, .done⟩ := by
  rw [run_cons, h]

lemma run_stop (h : switch p c = .stop) : run p (c :: rest) = ⟨p, [], 0, .done⟩ := by
  rw [run_cons, h]

end Step

lemma run_append (p : ChunkedParser) (a b : List UInt8) : run p (a ++ b) = if (run p a).status = .needMore
      then (run (run p a).parser b).after (run p a).body (run p a).consumed else run p a := by
  induction a generalizing p with
  | nil => simp [run]
  | cons c rest ih =>
    rw [List.cons_append]
    cases h : switch p c with
    | advance p' =>
      rw [run_advance h, run_advance h, ih p']
      split <;> simp_all
    | deliver =>
      rw [run_deliver h, run_deliver h, ih]
      split <;> simp_all
    | reject => simp [run_reject h]
    | finish p' => simp [run_finish h]
    | stop => simp [run_stop h]

/-! ## Single turns of the loop -/

lemma toNat_pos_of_ne_zero {x : UInt32} (h : x ≠ 0) : 0 < x.toNat :=
  Nat.pos_of_ne_zero fun e => h (UInt32.toNat_inj.mp e)

lemma switch_data {p c} (h : p.state = .data) : switch p c = .deliver := by
  simp [switch, h]

lemma switch_deliver {p c} (h : switch p c = .deliver) : p.state = .data := by
  grind [switch]

lemma switch_advance_wf {p p' c} (h : switch p c = .advance p') : p'.Wf := by
  intro hd
  have pos := @toNat_pos_of_ne_zero
  grind [switch]

lemma switch_finish_state {p p' c} (h : switch p c = .finish p') : p'.state = .complete := by
  grind [switch]

lemma hexVal_lt {c v} (h : hexVal c = some v) : v.toNat < 16 := by
  unfold hexVal at h
  split_ifs at h with h1 h2 h3 <;> cases h
  · have hle := UInt8.le_iff_toNat_le.mp h1.2
    rw [UInt8.toNat_toUInt32, UInt8.toNat_sub_of_le _ _ h1.1]
    simp at *; omega
  · have hle := UInt8.le_iff_toNat_le.mp h2.2
    rw [UInt32.toNat_add, UInt8.toNat_toUInt32, UInt8.toNat_sub_of_le _ _ h2.1]
    simp at *; omega
  · have hle := UInt8.le_iff_toNat_le.mp h3.2
    rw [UInt32.toNat_add, UInt8.toNat_toUInt32, UInt8.toNat_sub_of_le _ _ h3.1]
    simp at *; omega

/-- Below the guard of `State::Size` the shift loses no bit of the accumulator. -/
lemma shift_or_toNat {x v : UInt32} (h : ¬ x > 0x0FFFFFFF) (hv : v.toNat < 16) :
    ((x <<< 4) ||| v).toNat = 16 * x.toNat + v.toNat := by
  have hx : x.toNat ≤ 0x0FFFFFFF := by
    exact Nat.le_of_not_lt h
  have hs : (x <<< 4).toNat = 2 ^ 4 * x.toNat := by
    rw [UInt32.toNat_shiftLeft, show (4 : UInt32).toNat % 32 = 4 from rfl, Nat.shiftLeft_eq,
      Nat.mod_eq_of_lt (by omega), Nat.mul_comm]
  rw [UInt32.toNat_or, hs, ← Nat.two_pow_add_eq_or_of_lt hv]

lemma switch_digit {p p' c v} (hs : p.state = .size) (hv : hexVal c = some v) (h : switch p c = .advance p') :
    p'.chunkRemaining.toNat = 16 * p.chunkRemaining.toNat + v.toNat := by
  simp only [switch, hs, hv] at h
  split_ifs at h with hg
  cases h
  exact shift_or_toNat hg (hexVal_lt hv)

/-! ## Feeds -/

lemma deliver_remaining (p : ChunkedParser) {n} (h : n ≤ p.chunkRemaining.toNat) :
    (p.deliver n).chunkRemaining.toNat = p.chunkRemaining.toNat - n := by
  have hn : (UInt32.ofNat n).toNat = n :=
    UInt32.toNat_ofNat_of_lt' (Nat.lt_of_le_of_lt h p.chunkRemaining.toNat_lt)
  simp only [ChunkedParser.deliver]
  rw [UInt32.toNat_sub_of_le _ _ (UInt32.le_iff_toNat_le.mpr (by omega)), hn]

lemma deliver_wf {p : ChunkedParser} (n : Nat) : (p.deliver n).Wf := by
  intro hd
  simp only [ChunkedParser.deliver] at hd ⊢
  split_ifs at hd with hz
  exact toNat_pos_of_ne_zero hz

lemma deliver_state {p : ChunkedParser} {n} (h : n ≤ p.chunkRemaining.toNat) :
    (p.deliver n).state = if p.chunkRemaining.toNat = n then .dataCR else p.state := by
  have hr := deliver_remaining p h
  have hz : (p.deliver n).chunkRemaining = 0 ↔ p.chunkRemaining.toNat = n := by
    rw [← UInt32.toNat_inj, hr]
    simp only [UInt32.toNat_zero]
    omega
  simp only [← hz]
  rfl

lemma deliver_succ {p : ChunkedParser} {n} (h : n + 1 ≤ p.chunkRemaining.toNat) :
    (p.deliver 1).deliver n = p.deliver (n + 1) := by
  have h1 := deliver_remaining p (n := 1) (by omega)
  have hn : n ≤ (p.deliver 1).chunkRemaining.toNat := by omega
  have hr : ((p.deliver 1).deliver n).chunkRemaining = (p.deliver (n + 1)).chunkRemaining := by
    rw [← UInt32.toNat_inj, deliver_remaining _ hn, deliver_remaining p h]
    omega
  have hs : ((p.deliver 1).deliver n).state = (p.deliver (n + 1)).state := by
    rw [deliver_state hn, deliver_state h, deliver_state (p := p) (n := 1) (by omega), h1]
    split_ifs <;> first | rfl | omega
  have hd : ((p.deliver 1).deliver n).hasDigits = (p.deliver (n + 1)).hasDigits := rfl
  cases hp : (p.deliver 1).deliver n
  cases hq : p.deliver (n + 1)
  simp_all

lemma run_bulk {p input n} (hs : p.state = .data)
    (h0 : 0 < n) (hr : n ≤ p.chunkRemaining.toNat) (hl : n ≤ input.length) :
    run p input = (run (p.deliver n) (input.drop n)).after (input.take n) n := by
  induction n generalizing p input with
  | zero => omega
  | succ n ih =>
    cases input with
    | nil => simp at hl
    | cons c rest =>
      rw [run_deliver (switch_data hs)]
      rcases Nat.eq_zero_or_pos n with rfl | hpos
      · simp
      · have h1 := deliver_remaining p (n := 1) (by omega)
        have hs1 : (p.deliver 1).state = .data := by
          rw [deliver_state (by omega), if_neg (by omega), hs]
        rw [ih hs1 hpos (by omega) (by simpa using hl), deliver_succ hr]
        simp [Nat.add_comm]

/-- What one feed does, in terms of the byte-wise run: a `Data` result is a non-empty region of the
input and the stream goes on behind it, every other result ends the run of the input. -/
lemma feedLoop_spec {p} (input : List UInt8) (pos : Nat) (wf : p.Wf) : (feedLoop input p pos).1.Wf ∧
    ∃ k m, (feedLoop input p pos).2.consumed = pos + k ∧ if (feedLoop input p pos).2.status = .data then
        0 < (feedLoop input p pos).2.outLen ∧ (feedLoop input p pos).2.outStart = pos + m ∧ 0 < k ∧ k ≤ input.length ∧
        run p input = (run (feedLoop input p pos).1 (input.drop k)).after
          ((input.drop m).take (feedLoop input p pos).2.outLen) k
      else run p input = ⟨(feedLoop input p pos).1, [], k, (feedLoop input p pos).2.status⟩ := by
  induction input generalizing p pos with
  | nil => exact ⟨wf, 0, 0, by simp [feedLoop, run]⟩
  | cons c rest ih =>
    unfold feedLoop
    cases h : switch p c with
    | advance p' =>
      obtain ⟨wf', k, m, hk, hrest⟩ := ih (pos + 1) (switch_advance_wf h)
      refine ⟨wf', k + 1, m + 1, by simp only [hk]; omega, ?_⟩
      rw [run_advance h]
      dsimp only
      split_ifs at hrest ⊢ with hst
      · obtain ⟨hpos, hm, hk0, hkl, hrun⟩ := hrest
        refine ⟨hpos, by omega, by omega, by simpa using hkl, ?_⟩
        rw [hrun]
        simp [Nat.add_comm]
      · simp [hrest, Outcome.after, Nat.add_comm]
    | reject => exact ⟨wf, 0, 0, by simp [run_reject h]⟩
    | finish p' =>
      refine ⟨fun hd => ?_, 1, 0, by simp [run_finish h]⟩
      simp [switch_finish_state h] at hd
    | stop => exact ⟨wf, 0, 0, by simp [run_stop h]⟩
    | deliver =>
      have hs := switch_deliver h
      have hr := wf hs
      have hn : 0 < min (c :: rest).length p.chunkRemaining.toNat := by simp; omega
      refine ⟨deliver_wf _, min (c :: rest).length p.chunkRemaining.toNat, 0, rfl, ?_⟩
      refine ⟨hn, rfl, hn, Nat.min_le_left _ _, ?_⟩
      exact run_bulk hs hn (Nat.min_le_right _ _) (Nat.min_le_left _ _)

lemma feedLoop_region (input : List UInt8) (p : ChunkedParser) (pos : Nat) :
    if (feedLoop input p pos).2.status = .data then
      (feedLoop input p pos).2.outStart + (feedLoop input p pos).2.outLen = (feedLoop input p pos).2.consumed ∧
        (feedLoop input p pos).2.consumed ≤ pos + input.length else (feedLoop input p pos).2.outLen = 0 := by
  induction input generalizing p pos with
  | nil => exact rfl
  | cons c rest ih =>
    unfold feedLoop
    cases h : switch p c with
    | advance p' =>
      have hrest := ih p' (pos + 1)
      dsimp only
      split_ifs at hrest ⊢
      · rw [List.length_cons]
        omega
      · exact hrest
    | reject => exact rfl
    | finish p' => exact rfl
    | stop => exact rfl
    | deliver =>
      exact ⟨rfl, Nat.add_le_add_left (Nat.min_le_left _ _) pos⟩

lemma Reachable.wf {p} (hp : Reachable p) : p.Wf := by
  induction hp with
  | reset => exact fun h => by cases h
  | feed input _ ih => exact (feedLoop_spec input 0 ih).1

lemma drainLoop_eq_run {p input fuel} (wf : p.Wf)
    (hf : input.length < fuel) : drainLoop fuel p input = run p input := by
  induction fuel generalizing p input with
  | zero => omega
  | succ fuel ih =>
    obtain ⟨wf', k, m, hk, hspec⟩ := feedLoop_spec input 0 wf
    rw [← feed] at hk hspec wf'
    simp only [drainLoop]
    by_cases hst : (feed p input).2.status = .data
    · rw [if_pos hst] at hspec ⊢
      obtain ⟨-, hm, hk0, hkl, hrun⟩ := hspec
      rw [hk, hm, Nat.zero_add, Nat.zero_add, hrun, ih wf']
      rw [List.length_drop]
      omega
    · rw [if_neg hst] at hspec ⊢
      simp [hspec, hk]

lemma drain_eq_run {p : ChunkedParser} (input : List UInt8) (wf : p.Wf) : drain p input = run p input :=
  drainLoop_eq_run wf (Nat.lt_succ_self _)

lemma run_wf {p} (input : List UInt8) (wf : p.Wf) : (run p input).parser.Wf := by
  induction input generalizing p with
  | nil => exact wf
  | cons c rest ih =>
    cases h : switch p c with
    | advance p' => rw [run_advance h]; exact ih (switch_advance_wf h)
    | deliver => rw [run_deliver h]; exact ih (deliver_wf 1)
    | reject => rw [run_reject h]; exact wf
    | finish p' =>
      rw [run_finish h]
      intro hd
      simp [switch_finish_state h] at hd
    | stop => rw [run_stop h]; exact wf

lemma run_consumed (p : ChunkedParser) (input : List UInt8) : (run p input).consumed ≤ input.length ∧
      ((run p input).status = .needMore → (run p input).consumed = input.length) := by
  induction input generalizing p with
  | nil => exact ⟨le_rfl, fun _ => rfl⟩
  | cons c rest ih =>
    rw [List.length_cons]
    cases h : switch p c with
    | advance p' =>
      obtain ⟨hle, heq⟩ := ih p'
      rw [run_advance h, Outcome.after_consumed, Outcome.after_status]
      exact ⟨by omega, fun hst => by rw [heq hst, Nat.add_comm]⟩
    | deliver =>
      obtain ⟨hle, heq⟩ := ih (p.deliver 1)
      rw [run_deliver h, Outcome.after_consumed, Outcome.after_status]
      exact ⟨by omega, fun hst => by rw [heq hst, Nat.add_comm]⟩
    | reject => rw [run_reject h]; exact ⟨Nat.zero_le _, fun hst => by cases hst⟩
    | finish p' => rw [run_finish h]; exact ⟨by simp, fun hst => by cases hst⟩
    | stop => rw [run_stop h]; exact ⟨Nat.zero_le _, fun hst => by cases hst⟩

lemma drainAll_eq_run {p} (segs : List (List UInt8)) (wf : p.Wf) : drainAll p segs = run p segs.flatten := by
  induction segs generalizing p with
  | nil => rfl
  | cons seg segs ih =>
    simp only [drainAll, drain_eq_run seg wf, List.flatten_cons, run_append p seg]
    rw [ih (run_wf seg wf)]

/-! ## Encoded bodies -/

def crlf : List UInt8 := [ch '\r', ch '\n']

/-- Value of hex digits read after a prefix of value `acc`, most significant digit first. -/
def hexValue (acc : Nat) : List UInt8 → Nat
  | [] => acc
  | c :: cs => hexValue (16 * acc + ((hexVal c).map UInt32.toNat).getD 0) cs

/-- A chunk-size line: hex digits in any case, an optional extension after `;`, CRLF. -/
structure SizeLine where
  digits : List UInt8
  ext : List UInt8
  digits_ne : digits ≠ []
  digits_hex : ∀ c ∈ digits, (hexVal c).isSome
  digits_fit : hexValue 0 digits < 2 ^ 32
  ext_valid : ext = [] ∨ ∃ e, ext = ch ';' :: e ∧ ch '\r' ∉ e

structure Chunk extends SizeLine where
  data : List UInt8
  data_ne : data ≠ []
  size_eq : hexValue 0 digits = data.length

structure LastChunk extends SizeLine where
  size_eq : hexValue 0 digits = 0

structure TrailerLine where
  text : List UInt8
  text_ne : text ≠ []
  text_valid : ch '\r' ∉ text

def SizeLine.bytes (l : SizeLine) : List UInt8 := l.digits ++ l.ext ++ crlf

def Chunk.bytes (c : Chunk) : List UInt8 := c.toSizeLine.bytes ++ c.data ++ crlf

def TrailerLine.bytes (t : TrailerLine) : List UInt8 := t.text ++ crlf

def encode (chunks : List Chunk) (last : LastChunk) (trailers : List TrailerLine) : List UInt8 :=
  chunks.flatMap Chunk.bytes ++ last.toSizeLine.bytes ++ trailers.flatMap TrailerLine.bytes ++ crlf

/-- The decoder reads `bytes` without output and ends up as `p'`. -/
def Silent (p : ChunkedParser) (bytes : List UInt8) (p' : ChunkedParser) : Prop :=
  ∀ rest, run p (bytes ++ rest) = (run p' rest).after [] bytes.length

lemma Silent.nil (p : ChunkedParser) : Silent p [] p := fun rest => by simp

lemma Silent.cons {p p'' c cs} (p' : ChunkedParser) (h : switch p c = .advance p') (hs : Silent p' cs p'') :
    Silent p (c :: cs) p'' := by
  intro rest
  rw [List.cons_append, run_advance h, hs rest]
  simp [Nat.add_comm]

lemma Silent.append {p p' p'' a b} (ha : Silent p a p') (hb : Silent p' b p'') : Silent p (a ++ b) p'' := by
  intro rest
  rw [List.append_assoc, ha, hb]
  simp

lemma Silent.skip {p bytes}
    (hs : p.state = .extension ∨ p.state = .trailerLine) (hb : ch '\r' ∉ bytes) : Silent p bytes p := by
  induction bytes with
  | nil => exact .nil p
  | cons c cs ih =>
    obtain ⟨hc, hcs⟩ := List.ne_and_not_mem_of_not_mem_cons hb
    refine .cons _ ?_ (ih hcs)
    rcases hs with hs | hs <;> simp only [switch, hs, if_neg (Ne.symm hc)]

lemma hexValue_mono {acc cs} : acc ≤ hexValue acc cs := by
  induction cs generalizing acc with
  | nil => exact Nat.le_refl _
  | cons c cs ih => exact Nat.le_trans (by omega) ih

lemma Silent.digits {p digits} (hs : p.state = .size) (hh : ∀ c ∈ digits, (hexVal c).isSome)
    (hf : hexValue p.chunkRemaining.toNat digits < 2 ^ 32) : ∃ p', Silent p digits p' ∧ p'.state = .size ∧
      p'.chunkRemaining.toNat = hexValue p.chunkRemaining.toNat digits ∧
      (digits ≠ [] ∨ p.hasDigits = true → p'.hasDigits = true) := by
  induction digits generalizing p with
  | nil => exact ⟨p, .nil p, hs, rfl, by simp⟩
  | cons c cs ih =>
    obtain ⟨v, hv⟩ := Option.isSome_iff_exists.mp (hh c (by simp))
    simp only [hexValue, hv, Option.map_some, Option.getD_some] at hf ⊢
    have hacc := Nat.lt_of_le_of_lt hexValue_mono hf
    have hg : ¬ p.chunkRemaining > 0x0FFFFFFF := by
      rw [gt_iff_lt, UInt32.lt_iff_toNat_lt]
      simp only [UInt32.reduceToNat]
      omega
    have hsw : switch p c = .advance
        { p with chunkRemaining := (p.chunkRemaining <<< 4) ||| v, hasDigits := true } := by
      simp [switch, hs, hv, hg]
    have hval := switch_digit hs hv hsw
    rw [← hval] at hf ⊢
    obtain ⟨p', hsil, hst, hrem, hdig⟩ := ih (by exact hs) (fun d hd => hh d (by simp [hd])) hf
    exact ⟨p', .cons _ hsw hsil, hst, hrem, fun _ => hdig (.inr rfl)⟩

lemma Silent.sizeLine (l : SizeLine) : ∃ p', Silent .reset l.bytes p' ∧ p'.chunkRemaining.toNat = hexValue 0 l.digits ∧
      p'.state = if hexValue 0 l.digits = 0 then .trailer else .data := by
  obtain ⟨p1, hsil, hst, hrem, hdig⟩ := Silent.digits (p := .reset) rfl l.digits_hex l.digits_fit
  have hd := hdig (.inl l.digits_ne)
  have hrem : p1.chunkRemaining.toNat = hexValue 0 l.digits := hrem
  -- the extension and the CR lead to `sizeLF` on both ways
  have hcr : Silent p1 (l.ext ++ [ch '\r']) { p1 with state := .sizeLF } := by
    rcases l.ext_valid with he | ⟨e, he, hcr⟩
    · rw [he]
      have hx : hexVal (ch '\r') = none := by decide
      refine .cons { p1 with state := .sizeLF } ?_ (.nil _)
      simp [switch, hst, hd, hx]
    · rw [he]
      have hx : hexVal (ch ';') = none := by decide
      refine .cons { p1 with state := .extension } ?_ (.append (.skip (.inl rfl) hcr) ?_)
      · simp [switch, hst, hd, hx]
      · refine .cons { p1 with state := .sizeLF } ?_ (.nil _)
        simp [switch]
  refine ⟨{ p1 with state := if hexValue 0 l.digits = 0 then .trailer else .data }, ?_, hrem, rfl⟩
  have hlf : Silent { p1 with state := .sizeLF } [ch '\n']
      { p1 with state := if hexValue 0 l.digits = 0 then .trailer else .data } := by
    refine .cons _ ?_ (.nil _)
    have hz : p1.chunkRemaining = 0 ↔ hexValue 0 l.digits = 0 := by
      rw [← UInt32.toNat_inj, hrem, UInt32.toNat_zero]
    by_cases h0 : hexValue 0 l.digits = 0 <;> simp [switch, hz, h0]
  have := (hsil.append hcr).append hlf
  simpa [SizeLine.bytes, crlf] using this

lemma run_chunk (c : Chunk) (rest : List UInt8) :
    run .reset (c.bytes ++ rest) = (run .reset rest).after c.data c.bytes.length := by
  obtain ⟨p1, hsil, hrem, hst⟩ := Silent.sizeLine c.toSizeLine
  have hlen : 0 < c.data.length := List.length_pos_iff.mpr c.data_ne
  rw [c.size_eq] at hrem hst
  rw [if_neg (by omega)] at hst
  have hend : Silent (p1.deliver c.data.length) crlf .reset := by
    have hs := deliver_state (p := p1) (n := c.data.length) (by omega)
    rw [if_pos hrem] at hs
    refine .cons { p1.deliver c.data.length with state := .dataLF } ?_ (.cons _ ?_ (.nil _))
    · simp [switch, hs]
    · simp [switch, ChunkedParser.reset]
  have hdata : run p1 (c.data ++ (crlf ++ rest)) =
      (run (p1.deliver c.data.length) (crlf ++ rest)).after c.data c.data.length := by
    rw [run_bulk hst hlen (by omega) (by simp)]
    simp
  simp only [Chunk.bytes, List.append_assoc]
  rw [hsil, hdata, hend]
  simp

lemma run_chunks (chunks : List Chunk) (rest : List UInt8) : run .reset (chunks.flatMap Chunk.bytes ++ rest) =
      (run .reset rest).after (chunks.flatMap Chunk.data) (chunks.flatMap Chunk.bytes).length := by
  induction chunks with
  | nil => simp
  | cons c chunks ih =>
    simp only [List.flatMap_cons, List.append_assoc]
    rw [run_chunk, ih]
    simp

lemma Silent.trailerLine {p} (t : TrailerLine) (hs : p.state = .trailer) : Silent p t.bytes p := by
  obtain ⟨text, hne, hcr⟩ := t
  cases text with
  | nil => exact absurd rfl hne
  | cons c cs =>
    obtain ⟨hc, hcs⟩ := List.ne_and_not_mem_of_not_mem_cons hcr
    refine .cons { p with state := .trailerLine } ?_ (.append (.skip (.inr rfl) hcs) ?_)
    · simp only [switch, hs, if_neg (Ne.symm hc)]
    · refine .cons { p with state := .trailerLineLF } ?_ (.cons _ ?_ (.nil _))
      · simp [switch]
      · simp [switch, ← hs]

lemma Silent.trailers {p} (ts : List TrailerLine) (hs : p.state = .trailer) :
    Silent p (ts.flatMap TrailerLine.bytes) p := by
  induction ts with
  | nil => exact .nil p
  | cons t ts ih => exact (Silent.trailerLine t hs).append ih

lemma run_encode (chunks : List Chunk) (last : LastChunk) (trailers : List TrailerLine)
    (rest : List UInt8) :
    let o := run .reset (encode chunks last trailers ++ rest)
    o.body = chunks.flatMap Chunk.data ∧ o.consumed = (encode chunks last trailers).length ∧
      o.status = .done := by
  obtain ⟨p1, hlast, -, hst⟩ := Silent.sizeLine last.toSizeLine
  rw [if_pos last.size_eq] at hst
  have hcr : Silent p1 [ch '\r'] { p1 with state := .trailerLF } :=
    .cons _ (by simp [switch, hst]) (.nil _)
  have hlf : run { p1 with state := .trailerLF } (ch '\n' :: rest) =
      ⟨{ p1 with state := .complete }, [], 1, .done⟩ :=
    run_finish (by simp [switch])
  have htail := ((hlast.append (.trailers trailers hst)).append hcr) (ch '\n' :: rest)
  have hsplit : encode chunks last trailers ++ rest = chunks.flatMap Chunk.bytes ++
      (last.toSizeLine.bytes ++ trailers.flatMap TrailerLine.bytes ++ [ch '\r'] ++
        ch '\n' :: rest) := by
    simp [encode, crlf]
  simp only [hsplit]
  rw [run_chunks, htail, hlf]
  simp [encode, crlf, Nat.add_assoc]

/-! ## Accepted bodies -/

section accepted

variable {p : ChunkedParser} {s : List UInt8}

lemma lf_of_done (hs : p.state = .sizeLF ∨ p.state = .dataLF ∨ p.state = .trailerLF ∨ p.state = .trailerLineLF)
    (hd : (run p s).status = .done) : ∃ rest, s = ch '\n' :: rest := by
  cases s with
  | nil => cases hd
  | cons c rest =>
    by_cases hc : c = ch '\n'
    · exact ⟨rest, by rw [hc]⟩
    · have hreject : switch p c = .reject := by
        rcases hs with hs | hs | hs | hs <;> simp only [switch, hs, ne_eq, hc, not_false_eq_true, if_true]
      rw [run_reject hreject] at hd
      cases hd

lemma line_of_done (hs : p.state = .extension ∨ p.state = .trailerLine) (hd : (run p s).status = .done) :
    ∃ e rest, s = e ++ crlf ++ rest ∧ ch '\r' ∉ e := by
  induction s with
  | nil => cases hd
  | cons c rest ih =>
    by_cases hc : c = ch '\r'
    · subst hc
      obtain ⟨p', hsw, hp'⟩ : ∃ p', switch p (ch '\r') = .advance p' ∧ (p'.state = .sizeLF ∨ p'.state = .trailerLineLF) := by
        rcases hs with hs | hs
        · exact ⟨{ p with state := .sizeLF }, by simp [switch, hs], .inl rfl⟩
        · exact ⟨{ p with state := .trailerLineLF }, by simp [switch, hs], .inr rfl⟩
      rw [run_advance hsw, Outcome.after_status] at hd
      obtain ⟨rest', rfl⟩ := lf_of_done (by rcases hp' with h | h <;> simp [h]) hd
      exact ⟨[], rest', rfl, List.not_mem_nil⟩
    · have hsw : switch p c = .advance p := by
        rcases hs with hs | hs <;> simp only [switch, hs, if_neg hc]
      rw [run_advance hsw, Outcome.after_status] at hd
      obtain ⟨e, rest', rfl, he⟩ := ih hd
      exact ⟨c :: e, rest', rfl, List.not_mem_cons_of_ne_of_not_mem (Ne.symm hc) he⟩

lemma digits_of_done (hs : p.state = .size) (hd : (run p s).status = .done) :
    ∃ digits ext rest, s = digits ++ ext ++ crlf ++ rest ∧ (∀ c ∈ digits, (hexVal c).isSome) ∧
      hexValue p.chunkRemaining.toNat digits < 2 ^ 32 ∧ (p.hasDigits = false → digits ≠ []) ∧
      (ext = [] ∨ ∃ e, ext = ch ';' :: e ∧ ch '\r' ∉ e) := by
  induction s generalizing p with
  | nil => cases hd
  | cons c rest ih =>
    cases hv : hexVal c with
    | some v =>
      have hroom : ¬p.chunkRemaining > 0x0FFFFFFF := by
        intro hfull
        rw [run_reject (by simp [switch, hs, hv, hfull])] at hd
        cases hd
      have hsw : switch p c = .advance
          { p with chunkRemaining := (p.chunkRemaining <<< 4) ||| v, hasDigits := true } := by
        simp [switch, hs, hv, hroom]
      have hval := switch_digit hs hv hsw
      rw [run_advance hsw, Outcome.after_status] at hd
      obtain ⟨digits, ext, rest', rfl, hhex, hfit, -, hext⟩ := ih (by exact hs) hd
      rw [hval] at hfit
      refine ⟨c :: digits, ext, rest', rfl, ?_, ?_, fun _ => List.cons_ne_nil _ _, hext⟩
      · exact List.forall_mem_cons.mpr ⟨by rw [hv]; rfl, hhex⟩
      · simpa only [hexValue, hv, Option.map_some, Option.getD_some] using hfit
    | none =>
      -- Anything but the end of the line or an extension is rejected, and so are these without digits.
      have hdigits : p.hasDigits = true := by
        by_contra hno
        rw [run_reject (by simp [switch, hs, hv, hno])] at hd
        cases hd
      have hempty : p.hasDigits = false → ([] : List UInt8) ≠ [] := fun h => by rw [hdigits] at h; cases h
      by_cases hcr : c = ch '\r'
      · subst hcr
        rw [run_advance (show switch p _ = .advance { p with state := .sizeLF } by simp [switch, hs, hv, hdigits]),
          Outcome.after_status] at hd
        obtain ⟨rest', rfl⟩ := lf_of_done (.inl rfl) hd
        exact ⟨[], [], rest', rfl, List.forall_mem_nil _, p.chunkRemaining.toNat_lt, hempty, .inl rfl⟩
      · have hsemi : c = ch ';' := by
          by_contra hno
          rw [run_reject (by simp [switch, hs, hv, hcr, hno])] at hd
          cases hd
        subst hsemi
        rw [run_advance (show switch p _ = .advance { p with state := .extension } by simp [switch, hs, hv, hdigits]),
          Outcome.after_status] at hd
        obtain ⟨e, rest', rfl, he⟩ := line_of_done (.inl rfl) hd
        exact ⟨[], ch ';' :: e, rest', rfl, List.forall_mem_nil _, p.chunkRemaining.toNat_lt, hempty, .inr ⟨e, rfl, he⟩⟩

lemma sizeLine_of_done (hd : (run .reset s).status = .done) : ∃ (l : SizeLine) (rest : List UInt8), s = l.bytes ++ rest := by
  obtain ⟨digits, ext, rest, rfl, hhex, hfit, hne, hext⟩ := digits_of_done (p := .reset) rfl hd
  exact ⟨⟨digits, ext, hne rfl, hhex, hfit, hext⟩, rest, rfl⟩

lemma trailers_of_done {n} (hs : p.state = .trailer) (hn : s.length ≤ n) (hd : (run p s).status = .done) :
    ∃ (ts : List TrailerLine) (rest : List UInt8), s = ts.flatMap TrailerLine.bytes ++ crlf ++ rest := by
  induction n generalizing s with
  | zero =>
    rw [List.length_eq_zero_iff.mp (Nat.le_zero.mp hn)] at hd
    cases hd
  | succ n ih =>
    cases s with
    | nil => cases hd
    | cons c rest =>
      by_cases hc : c = ch '\r'
      · subst hc
        rw [run_advance (show switch p _ = .advance { p with state := .trailerLF } by simp [switch, hs]),
          Outcome.after_status] at hd
        obtain ⟨rest', rfl⟩ := lf_of_done (.inr (.inr (.inl rfl))) hd
        exact ⟨[], rest', rfl⟩
      · have hline := hd
        rw [run_advance (show switch p _ = .advance { p with state := .trailerLine } by simp [switch, hs, hc]),
          Outcome.after_status] at hline
        obtain ⟨e, rest', rfl, he⟩ := line_of_done (.inr rfl) hline
        let t : TrailerLine := ⟨c :: e, List.cons_ne_nil _ _, List.not_mem_cons_of_ne_of_not_mem (Ne.symm hc) he⟩
        have hrun := Silent.trailerLine t hs rest'
        have hbytes : c :: (e ++ crlf ++ rest') = t.bytes ++ rest' := rfl
        rw [hbytes, hrun, Outcome.after_status] at hd
        rw [List.length_cons, List.length_append, List.length_append] at hn
        obtain ⟨ts, rest'', rfl⟩ := ih (by omega) hd
        refine ⟨t :: ts, rest'', ?_⟩
        rw [hbytes, List.flatMap_cons]
        simp

lemma data_of_done (hs : p.state = .data) (hpos : 0 < p.chunkRemaining.toNat) (hd : (run p s).status = .done) :
    ∃ data rest, s = data ++ crlf ++ rest ∧ data.length = p.chunkRemaining.toNat := by
  by_cases hlen : p.chunkRemaining.toNat ≤ s.length
  · have hst : (p.deliver p.chunkRemaining.toNat).state = .dataCR := by rw [deliver_state le_rfl, if_pos rfl]
    rw [run_bulk hs hpos le_rfl hlen, Outcome.after_status] at hd
    refine ⟨s.take p.chunkRemaining.toNat, (s.drop p.chunkRemaining.toNat).drop 2, ?_, List.length_take_of_le hlen⟩
    cases hrest : s.drop p.chunkRemaining.toNat with
    | nil =>
      rw [hrest] at hd
      cases hd
    | cons c rest =>
      rw [hrest] at hd
      by_cases hc : c = ch '\r'
      · subst hc
        rw [run_advance (show switch (p.deliver p.chunkRemaining.toNat) _ =
            .advance { p.deliver p.chunkRemaining.toNat with state := .dataLF } by simp [switch, hst]),
          Outcome.after_status] at hd
        obtain ⟨rest', rfl⟩ := lf_of_done (.inr (.inl rfl)) hd
        conv_lhs => rw [← List.take_append_drop p.chunkRemaining.toNat s, hrest]
        simp [crlf]
      · rw [run_reject (by simp [switch, hst, hc])] at hd
        cases hd
  · -- The data ends before the chunk does.
    rcases Nat.eq_zero_or_pos s.length with hzero | hsome
    · rw [List.length_eq_zero_iff.mp hzero] at hd
      cases hd
    · rw [run_bulk hs hsome (Nat.le_of_lt (Nat.not_le.mp hlen)) le_rfl, List.drop_length] at hd
      cases hd

lemma encode_of_done {n} (hn : s.length ≤ n) (hd : (run .reset s).status = .done) :
    ∃ chunks last trailers rest, s = encode chunks last trailers ++ rest := by
  induction n generalizing s with
  | zero =>
    rw [List.length_eq_zero_iff.mp (Nat.le_zero.mp hn)] at hd
    cases hd
  | succ n ih =>
    obtain ⟨l, rest, rfl⟩ := sizeLine_of_done hd
    obtain ⟨p', hsil, hrem, hst⟩ := Silent.sizeLine l
    have hrest := hd
    rw [hsil, Outcome.after_status] at hrest
    by_cases hzero : hexValue 0 l.digits = 0
    · rw [if_pos hzero] at hst
      obtain ⟨ts, rest', rfl⟩ := trailers_of_done hst le_rfl hrest
      refine ⟨[], ⟨l, hzero⟩, ts, rest', ?_⟩
      simp [encode]
    · rw [if_neg hzero] at hst
      obtain ⟨data, rest', rfl, hdata⟩ := data_of_done hst (by omega) hrest
      have hne : data ≠ [] := List.ne_nil_of_length_pos (by omega)
      let c : Chunk := ⟨l, data, hne, by omega⟩
      have hbytes : l.bytes ++ (data ++ crlf ++ rest') = c.bytes ++ rest' := by simp [Chunk.bytes, c]
      rw [hbytes] at hd hn ⊢
      rw [run_chunk, Outcome.after_status] at hd
      have hshort : rest'.length ≤ n := by
        have hpos : 0 < c.bytes.length := by simp [Chunk.bytes, crlf]
        rw [List.length_append] at hn
        omega
      obtain ⟨chunks, last, trailers, rest'', rfl⟩ := ih hshort hd
      refine ⟨c :: chunks, last, trailers, rest'', ?_⟩
      simp [encode]

lemma run_done_encode (hd : (run .reset s).status = .done) (hc : (run .reset s).consumed = s.length) :
    ∃ chunks last trailers, s = encode chunks last trailers ∧ (run .reset s).body = chunks.flatMap Chunk.data := by
  obtain ⟨chunks, last, trailers, rest, rfl⟩ := encode_of_done le_rfl hd
  obtain ⟨hbody, hconsumed, -⟩ := run_encode chunks last trailers rest
  have hrest : rest = [] := by
    rw [hconsumed, List.length_append] at hc
    exact List.length_eq_zero_iff.mp (by omega)
  subst hrest
  exact ⟨chunks, last, trailers, List.append_nil _, hbody⟩

end accepted

/-- The chunked decoder does not depend on how the stream is split into feeds, hands out non-empty
regions only, reads every encoded body back exactly and never wraps its size accumulator. -/
theorem drainAll_segmentation_roundtrip :
    (∀ segs : List (List UInt8),
      drainAll .reset segs = drainAll .reset [segs.flatten]) ∧
    (∀ p, Reachable p → ∀ input : List UInt8,
      (feed p input).2.status = .data → 0 < (feed p input).2.outLen) ∧
    (∀ (chunks : List Chunk) (last : LastChunk) (trailers : List TrailerLine) (rest : List UInt8)
        (segs : List (List UInt8)),
      segs.flatten = encode chunks last trailers ++ rest →
      (drainAll .reset segs).body = chunks.flatMap Chunk.data ∧
      (drainAll .reset segs).consumed = (encode chunks last trailers).length ∧
      (drainAll .reset segs).status = .done) ∧
    (∀ (p p' : ChunkedParser) (c : UInt8) (v : UInt32),
      p.state = .size → hexVal c = some v → switch p c = .advance p' →
      p'.chunkRemaining.toNat = 16 * p.chunkRemaining.toNat + v.toNat) := by
  have wf : ChunkedParser.reset.Wf := Reachable.reset.wf
  refine ⟨fun segs => ?_, fun p hp input hst => ?_, fun chunks last trailers rest segs hsegs => ?_, ?_⟩
  · rw [drainAll_eq_run segs wf, drainAll_eq_run _ wf]
    simp
  · obtain ⟨-, k, m, -, hspec⟩ := feedLoop_spec input 0 hp.wf
    rw [← feed, if_pos hst] at hspec
    exact hspec.1
  · rw [drainAll_eq_run segs wf, hsegs]
    exact run_encode chunks last trailers rest
  · intro p p' c v hs hv h
    exact switch_digit hs hv h

/-- The chunk `4 CRLF Wiki CRLF`. -/
def wikiChunk : Chunk where
  digits := [ch '4']
  ext := []
  digits_ne := by decide
  digits_hex := fun c hc => by
    rw [List.mem_singleton.mp hc]
    rfl
  digits_fit := by decide
  ext_valid := .inl rfl
  data := lit ['W','i','k','i']
  data_ne := by decide
  size_eq := by decide

/-- The last chunk `0;x CRLF`. -/
def zeroChunk : LastChunk where
  digits := [ch '0']
  ext := [ch ';', ch 'x']
  digits_ne := by decide
  digits_hex := fun c hc => by
    rw [List.mem_singleton.mp hc]
    rfl
  digits_fit := by decide
  ext_valid := .inr ⟨[ch 'x'], rfl, by decide⟩
  size_eq := by decide

/-- A body cut inside its data and followed by another message. -/
theorem drainAll_wiki :
    (drainAll .reset [lit ['4','\r','\n','W','i'],
      lit ['k','i','\r','\n','0',';','x','\r','\n','\r','\n','G']]).body =
        lit ['W','i','k','i'] :=
  (drainAll_segmentation_roundtrip.2.2.1 [wikiChunk] zeroChunk [] [ch 'G'] _ (by decide)).1

end Rut.Http.Chunked
