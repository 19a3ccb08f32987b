import Rut.Lib.Loop
import Rut.Lib.Memory
import Rut.Ws.Extensions

/-!
# Rewriting the extension header in place

Port of `ws_rewrite_extensions` of `src/runtime/ws_extensions.cc`. The buffer is edited in place: a first pass over the
lines measures what goes, a second one compacts the others, then the octets behind the header are moved and the new line
is written. Lengths are computed as in the source, where the sum of the two lengths of the new line is one of `u32`.
-/

set_option linter.all false
namespace Rut.Ws

open Http Lib

def crlf : Str := [ch '\r', ch '\n']

lemma length_crlf : crlf.length = 2 := rfl

/-- The search for CRLF in `line_end`, from `i` on. -/
def lineEndFrom (buffer : Nat → UInt8) (header_len : Nat) : Nat → Nat → Nat
  | 0, _ => header_len
  | fuel + 1, i =>
    if i + 1 < header_len then
      if buffer i = ch '\r' ∧ buffer (i + 1) = ch '\n' then i else lineEndFrom buffer header_len fuel (i + 1)
    else header_len

/-- `line_end`. -/
def line_end (buffer : Nat → UInt8) (start header_len : Nat) : Nat :=
  lineEndFrom buffer header_len (header_len - start) start

/-- `field_is` on the octets of a line: the name in front of the first colon. -/
def field_is (line name : Str) : Bool :=
  let field := line.takeWhile (· != ch ':')
  decide (field.length < line.length) && httpHeaderNameEqCi field name

/-- `kPrefix`. -/
def kExtensionsPrefix : Str :=
  lit ['S','e','c','-','W','e','b','S','o','c','k','e','t','-','E','x','t','e','n','s','i','o','n','s',
    ':',' ']

def isExtensions (line : Str) : Bool := field_is line extensionsName

/-- A turn of the pass that measures the lines that go, `none` for a line that is not one. -/
def measureStep (buffer : Nat → UInt8) (header_len : Nat) : Nat × Nat → (Nat × Nat) ⊕ Option Nat
  | (pos, removed) =>
    if pos < header_len - 2 then
      let kEnd := line_end buffer pos header_len
      if kEnd = header_len ∨ kEnd = pos then .inr none
      else
        .inl (kEnd + 2,
          if isExtensions (Memory.read buffer pos (kEnd - pos)) then removed + (kEnd + 2 - pos) else removed)
    else .inr (some removed)

structure Compaction where
  buffer : Nat → UInt8
  pos : Nat
  written : Nat

def compactStep (header_len : Nat) (st : Compaction) : Compaction ⊕ Compaction :=
  if st.pos < header_len - 2 then
    let kEnd := line_end st.buffer st.pos header_len
    if isExtensions (Memory.read st.buffer st.pos (kEnd - st.pos)) then .inl { st with pos := kEnd + 2 }
    else
      .inl
        { buffer := Memory.write st.buffer st.written (Memory.read st.buffer st.pos (kEnd + 2 - st.pos))
          pos := kEnd + 2
          written := st.written + (kEnd + 2 - st.pos) }
  else .inr st

/-- The octets of `extension_value` that are accepted. -/
def isExtensionOctet (b : UInt8) : Bool := 0x20 ≤ b && b < 0x7f

/-- `kNewHeader`: `kPrefix.len + extension_value.len` is a sum of `u32`. -/
def newHeaderLen (header_len removed : Nat) (value : Str) : Nat :=
  header_len - removed + if value = [] then 0 else (kExtensionsPrefix.length + value.length) % 2 ^ 32 + 2

def headerEnd (value : Str) : Str := (if value = [] then [] else kExtensionsPrefix ++ value ++ crlf) ++ crlf

/-- `ws_rewrite_extensions`: the result and the buffer after it, absent if a pass does not end. -/
def ws_rewrite_extensions (buffer : Nat → UInt8) (header_len total_len capacity : Nat) (value : Str) :
    Option (Nat × (Nat → UInt8)) :=
  if header_len < 4 ∨ total_len < header_len ∨ capacity < total_len ∨
      Memory.read buffer (header_len - 4) 4 ≠ crlf ++ crlf then some (0, buffer)
  else if !value.all isExtensionOctet then some (0, buffer)
  else
    let kFirstEnd := line_end buffer 0 header_len
    if kFirstEnd = header_len ∨ kFirstEnd = 0 then some (0, buffer)
    else
      match loop (measureStep buffer header_len) header_len (kFirstEnd + 2, 0) with
      | none => none
      | some none => some (0, buffer)
      | some (some removed) =>
        let kNewHeader := newHeaderLen header_len removed value
        if capacity < kNewHeader + total_len - header_len then some (0, buffer)
        else
          match loop (compactStep header_len) header_len ⟨buffer, kFirstEnd + 2, kFirstEnd + 2⟩ with
          | none => none
          | some st =>
            let moved := Memory.write st.buffer kNewHeader (Memory.read st.buffer header_len (total_len - header_len))
            some (kNewHeader, Memory.write moved st.written (headerEnd value))

/-! ## Lines in memory -/

variable {buffer buffer' : Nat → UInt8} {header_len pos : Nat}

/-- A line ends at `i`. -/
abbrev CrlfAt (buffer : Nat → UInt8) (i : Nat) : Prop := buffer i = ch '\r' ∧ buffer (i + 1) = ch '\n'

/-- `line_end` finds the first end of a line. -/
lemma line_end_eq {e} (hle : pos ≤ e) (hlt : e + 1 < header_len) (hcrlf : CrlfAt buffer e)
    (hfirst : ∀ i, pos ≤ i → i < e → ¬CrlfAt buffer i) : line_end buffer pos header_len = e := by
  unfold line_end
  have hfuel : e - pos < header_len - pos := by omega
  generalize header_len - pos = fuel at hfuel
  induction fuel generalizing pos with
  | zero => omega
  | succ fuel ih =>
    rw [lineEndFrom, if_pos (by omega)]
    rcases hle.eq_or_lt with rfl | hlt'
    · exact if_pos hcrlf
    · rw [if_neg (hfirst pos le_rfl hlt')]
      exact ih hlt' (fun i hi => hfirst i (by omega)) (by omega)

lemma exists_line_end {e} (hle : pos ≤ e) (hlt : e + 1 < header_len) (hcrlf : CrlfAt buffer e) :
    ∃ e', line_end buffer pos header_len = e' ∧ pos ≤ e' ∧ e' ≤ e ∧ CrlfAt buffer e' ∧
      ∀ i, pos ≤ i → i < e' → ¬CrlfAt buffer i := by
  have hex : ∃ i, pos ≤ i ∧ CrlfAt buffer i := ⟨e, hle, hcrlf⟩
  have hspec := Nat.find_spec hex
  have hmin : Nat.find hex ≤ e := Nat.find_min' hex ⟨hle, hcrlf⟩
  have hfirst : ∀ i, pos ≤ i → i < Nat.find hex → ¬CrlfAt buffer i :=
    fun i hi hlt hat => Nat.find_min hex hlt ⟨hi, hat⟩
  exact ⟨_, line_end_eq hspec.1 (by omega) hspec.2 hfirst, hspec.1, hmin, hspec.2, hfirst⟩

lemma crlfLines_read {e n} (hle : pos ≤ e) (hn : e + 2 ≤ pos + n) (hcrlf : CrlfAt buffer e)
    (hfirst : ∀ i, pos ≤ i → i < e → ¬CrlfAt buffer i) : crlfLines (Memory.read buffer pos n) =
      Memory.read buffer pos (e - pos) :: crlfLines (Memory.read buffer (e + 2) (pos + n - (e + 2))) := by
  obtain ⟨k, rfl⟩ := Nat.exists_eq_add_of_le hle
  induction k generalizing pos n with
  | zero =>
    obtain ⟨n, rfl⟩ : ∃ m, n = m + 2 := ⟨n - 2, by omega⟩
    have hat : CrlfAt buffer pos := hcrlf
    have hlen : pos + 0 - pos = 0 := by omega
    rw [Memory.read_succ, Memory.read_succ, crlfLines, if_pos hat, hlen, Memory.read_zero]
    congr 3
    omega
  | succ k ih =>
    obtain ⟨n, rfl⟩ : ∃ m, n = m + 2 := ⟨n - 2, by omega⟩
    have hnot : ¬CrlfAt buffer pos := hfirst pos le_rfl (by omega)
    have hshift : pos + (k + 1) = pos + 1 + k := by omega
    have hrest := @ih (pos + 1) (n + 1) (by omega) (by omega) (hshift ▸ hcrlf)
      fun i hi hlt => hfirst i (by omega) (by omega)
    rw [Memory.read_succ, Memory.read_succ, crlfLines, if_neg hnot, ← Memory.read_succ, hrest, List.modifyHead_cons]
    have hlen : pos + (k + 1) - pos = k + 1 := by omega
    have hlen' : pos + 1 + k - (pos + 1) = k := by omega
    rw [hlen, hlen', Memory.read_succ]
    congr 3 <;> omega

/-- The lines behind the start line, from `pos` on up to the empty line. -/
inductive Lines (buffer : Nat → UInt8) (header_len : Nat) : Nat → List Str → Prop where
  | nil : Lines buffer header_len (header_len - 2) []
  | cons {pos : Nat} {ls : List Str} (hpos : pos < header_len - 2) (hline : pos < line_end buffer pos header_len)
      (hcut : line_end buffer pos header_len + 4 ≤ header_len)
      (hrest : Lines buffer header_len (line_end buffer pos header_len + 2) ls) :
      Lines buffer header_len pos (Memory.read buffer pos (line_end buffer pos header_len - pos) :: ls)

abbrev EndsHeader (buffer : Nat → UInt8) (header_len : Nat) : Prop :=
  4 ≤ header_len ∧ Memory.read buffer (header_len - 4) 4 = crlf ++ crlf

lemma EndsHeader.cells (h : EndsHeader buffer header_len) :
    CrlfAt buffer (header_len - 4) ∧ CrlfAt buffer (header_len - 2) := by
  obtain ⟨n, rfl⟩ : ∃ n, header_len = n + 4 := ⟨header_len - 4, by omega⟩
  have hcells := h.2
  simp only [Nat.add_sub_cancel, Memory.read_succ, Memory.read_zero, crlf, List.cons_append, List.nil_append,
    List.cons.injEq, and_true] at hcells
  exact ⟨⟨hcells.1, hcells.2.1⟩, hcells.2.2⟩

def BeginsLine (header_len pos : Nat) : Prop := pos + 4 ≤ header_len ∨ pos + 2 = header_len

lemma EndsHeader.line (h : EndsHeader buffer header_len) (hpos : pos + 4 ≤ header_len) :
    pos ≤ line_end buffer pos header_len ∧ line_end buffer pos header_len + 4 ≤ header_len ∧
      BeginsLine header_len (line_end buffer pos header_len + 2) ∧ CrlfAt buffer (line_end buffer pos header_len) ∧
      ∀ i, pos ≤ i → i < line_end buffer pos header_len → ¬CrlfAt buffer i := by
  obtain ⟨hlast, -⟩ := h.cells
  obtain ⟨e, heq, hle, hmax, hcrlf, hfirst⟩ : ∃ e, line_end buffer pos header_len = e ∧ _ :=
    exists_line_end (by omega) (by omega) hlast
  rw [heq]
  refine ⟨hle, by omega, ?_, hcrlf, hfirst⟩
  unfold BeginsLine
  -- the end of the line is not one octet in front of the last one, which begins with CR
  have hne : e + 5 ≠ header_len := by
    intro heq
    have hcell : e + 1 = header_len - 4 := by omega
    have hlf := hcrlf.2
    rw [hcell, hlast.1] at hlf
    exact absurd hlf (by decide)
  omega

def goneLen (ls : List Str) : Nat := ((ls.filter isExtensions).flatMap (· ++ crlf)).length

def keptText (ls : List Str) : Str := (ls.filter fun l => !isExtensions l).flatMap (· ++ crlf)

lemma goneLen_cons (l : Str) (ls : List Str) :
    goneLen (l :: ls) = (if isExtensions l then l.length + 2 else 0) + goneLen ls := by
  unfold goneLen
  rw [List.filter_cons]
  split_ifs
  · rw [List.flatMap_cons, List.length_append, List.length_append, length_crlf]
  · rw [Nat.zero_add]

lemma measure_loop (h : EndsHeader buffer header_len) {fuel removed} (hpos : BeginsLine header_len pos)
    (hfuel : header_len - pos < fuel) : ∃ r, loop (measureStep buffer header_len) fuel (pos, removed) = some r ∧
      ∀ x, r = some x → ∃ ls, Lines buffer header_len pos ls ∧ x = removed + goneLen ls := by
  induction fuel generalizing pos removed with
  | zero => omega
  | succ fuel ih =>
    rw [loop_succ, measureStep]
    rcases hpos with hpos | hpos
    · obtain ⟨hle, hcut, hnext, -, -⟩ := h.line hpos
      rw [if_pos (by omega)]
      by_cases hline : pos = line_end buffer pos header_len
      · rw [if_pos (.inr hline.symm)]
        exact ⟨none, rfl, fun x hx => by cases hx⟩
      · rw [if_neg (by omega)]
        obtain ⟨r, hr, hspec⟩ := ih hnext (by omega)
        refine ⟨r, hr, fun x hx => ?_⟩
        obtain ⟨ls, hls, rfl⟩ := hspec x hx
        refine ⟨_, .cons (by omega) (by omega) hcut hls, ?_⟩
        rw [goneLen_cons, Memory.length_read]
        split_ifs <;> omega
    · rw [if_neg (by omega)]
      have heq : pos = header_len - 2 := by omega
      refine ⟨some removed, rfl, fun x hx => ⟨[], heq ▸ .nil, ?_⟩⟩
      cases hx
      rfl

lemma Lines.crlfLines_eq (h : EndsHeader buffer header_len) {ls} (hls : Lines buffer header_len pos ls) :
    crlfLines (Memory.read buffer pos (header_len - pos)) = ls ++ [[], []] ∧ ∀ l ∈ ls, l ≠ [] := by
  induction hls with
  | nil =>
    obtain ⟨-, hcr, hlf⟩ := h.cells
    have hlen : header_len - (header_len - 2) = 2 := by omega
    rw [hlen, Memory.read_succ, Memory.read_succ, Memory.read_zero, hcr, hlf]
    exact ⟨rfl, fun l hl => absurd hl List.not_mem_nil⟩
  | @cons pos ls hpos hline hcut _ ih =>
    obtain ⟨ih, hne⟩ := ih
    have hle : pos + 4 ≤ header_len := by omega
    obtain ⟨-, -, -, hcrlf, hfirst⟩ := h.line hle
    have hlen : pos + (header_len - pos) = header_len := by omega
    rw [crlfLines_read hline.le (by omega) hcrlf hfirst, hlen, ih]
    refine ⟨rfl, fun l hl => ?_⟩
    rcases List.mem_cons.mp hl with rfl | hl
    · exact List.ne_nil_of_length_pos (by rw [Memory.length_read]; omega)
    · exact hne l hl

/-! ## The second pass -/

lemma line_end_congr (h : ∀ k, pos ≤ k → buffer' k = buffer k) :
    line_end buffer' pos header_len = line_end buffer pos header_len := by
  unfold line_end
  generalize header_len - pos = fuel
  induction fuel generalizing pos with
  | zero => rfl
  | succ fuel ih => rw [lineEndFrom, lineEndFrom, h pos le_rfl, h (pos + 1) (by omega), ih fun k hk => h k (by omega)]

lemma Lines.read_line (h : EndsHeader buffer header_len) (hpos : pos + 4 ≤ header_len) :
    Memory.read buffer pos (line_end buffer pos header_len + 2 - pos) =
      Memory.read buffer pos (line_end buffer pos header_len - pos) ++ crlf := by
  obtain ⟨hle, -, -, hcrlf, -⟩ := h.line hpos
  have hlen : line_end buffer pos header_len + 2 - pos = line_end buffer pos header_len - pos + 2 := by omega
  have hcell : pos + (line_end buffer pos header_len - pos) = line_end buffer pos header_len := by omega
  rw [hlen, Memory.read_add, hcell, Memory.read_succ, Memory.read_succ, Memory.read_zero, hcrlf.1, hcrlf.2]
  rfl

lemma keptText_cons (l : Str) (ls : List Str) :
    keptText (l :: ls) = (if isExtensions l then [] else l ++ crlf) ++ keptText ls := by
  unfold keptText
  rw [List.filter_cons]
  cases isExtensions l with
  | true => rfl
  | false => rfl

lemma compact_loop (h : EndsHeader buffer header_len) {ls} (hls : Lines buffer header_len pos ls)
    {fuel written} (hwritten : written ≤ pos) (hsame : ∀ k, pos ≤ k → buffer' k = buffer k)
    (hfuel : header_len - pos < fuel) : ∃ st, loop (compactStep header_len) fuel ⟨buffer', pos, written⟩ = some st ∧
      st.written = written + (keptText ls).length ∧
      Memory.read st.buffer 0 st.written = Memory.read buffer' 0 written ++ keptText ls ∧
      ∀ k, header_len - 2 ≤ k → st.buffer k = buffer k := by
  induction hls generalizing fuel written buffer' with
  | nil =>
    obtain ⟨fuel, rfl⟩ : ∃ f, fuel = f + 1 := ⟨fuel - 1, by omega⟩
    refine ⟨⟨buffer', header_len - 2, written⟩, ?_, rfl, (List.append_nil _).symm, hsame⟩
    rw [loop_succ, compactStep, if_neg (by simp)]
  | @cons pos ls hpos hline hcut _ ih =>
    obtain ⟨fuel, rfl⟩ : ∃ f, fuel = f + 1 := ⟨fuel - 1, by omega⟩
    have hend : line_end buffer' pos header_len = line_end buffer pos header_len := line_end_congr hsame
    have hread : ∀ n, Memory.read buffer' pos n = Memory.read buffer pos n :=
      fun n => Memory.read_congr fun k hk _ => hsame k hk
    have hnext : ∀ k, line_end buffer pos header_len + 2 ≤ k → buffer' k = buffer k := fun k hk => hsame k (by omega)
    rw [loop_succ, compactStep, if_pos hpos]
    dsimp only
    rw [hend, hread, hread, Lines.read_line h (by omega), keptText_cons]
    by_cases hext : isExtensions (Memory.read buffer pos (line_end buffer pos header_len - pos)) = true
    · rw [if_pos hext, if_pos hext, List.nil_append]
      exact ih (by omega) hnext (by omega)
    · rw [if_neg hext, if_neg hext]
      generalize hl : Memory.read buffer pos (line_end buffer pos header_len - pos) ++ crlf = line
      have hlen : line.length = line_end buffer pos header_len + 2 - pos := by
        rw [← hl, ← Lines.read_line h (by omega), Memory.length_read]
      have hkeep : ∀ k, line_end buffer pos header_len + 2 ≤ k → Memory.write buffer' written line k = buffer k := by
        intro k hk
        rw [Memory.write_of_ge (by omega)]
        exact hnext k hk
      rw [← hlen]
      have hle : written + line.length ≤ line_end buffer pos header_len + 2 := by omega
      have hfuel' : header_len - (line_end buffer pos header_len + 2) < fuel := by omega
      obtain ⟨st, hst, hwr, htext, hafter⟩ := ih hle hkeep hfuel'
      refine ⟨st, hst, ?_, ?_, hafter⟩
      · rw [hwr, List.length_append, Nat.add_assoc]
      · rw [htext, Memory.read_add, Nat.zero_add, Memory.read_write_of_le (by omega), Memory.read_write,
          List.append_assoc]

lemma Lines.length_eq {ls} (hls : Lines buffer header_len pos ls) :
    pos + goneLen ls + (keptText ls).length = header_len - 2 := by
  induction hls with
  | nil => rfl
  | @cons pos ls hpos hline hcut _ ih =>
    rw [keptText_cons, goneLen_cons, Memory.length_read]
    split_ifs <;> simp only [List.length_append, Memory.length_read, length_crlf, List.length_nil] <;> omega

/-! ## The rewritten header -/

/-- The header without the lines of the field, with a new one if there is a value. -/
def rewrittenHeader (head value : Str) : Str :=
  (crlfLines head).headD [] ++ crlf ++ keptText ((crlfLines head).tail.takeWhile (· != [])) ++ headerEnd value

/-- The header of `n` octets is the rewritten one, and what was behind the old one is behind it. -/
structure Rewritten (buffer buffer' : Nat → UInt8) (header_len total_len n : Nat) (value : Str) : Prop where
  header : Memory.read buffer' 0 n = rewrittenHeader (Memory.read buffer 0 header_len) value
  tail : Memory.read buffer' n (total_len - header_len) = Memory.read buffer header_len (total_len - header_len)

lemma rewrittenHeader_eq (h : EndsHeader buffer header_len) (value : Str) {ls}
    (hls : Lines buffer header_len (line_end buffer 0 header_len + 2) ls) :
    rewrittenHeader (Memory.read buffer 0 header_len) value =
      Memory.read buffer 0 (line_end buffer 0 header_len + 2) ++ keptText ls ++ headerEnd value := by
  obtain ⟨-, hcut, -, hcrlf, hfirst⟩ := h.line (show 0 + 4 ≤ header_len by omega)
  obtain ⟨hlines, hne⟩ := hls.crlfLines_eq h
  have hstart := crlfLines_read (n := header_len) (Nat.zero_le _) (by omega) hcrlf hfirst
  rw [Nat.zero_add, hlines] at hstart
  have htake : (ls ++ [[], []]).takeWhile (· != []) = ls := by
    rw [List.takeWhile_append_of_pos fun l hl => bne_iff_ne.mpr (hne l hl)]
    exact List.append_nil ls
  have hline := Lines.read_line h (show 0 + 4 ≤ header_len by omega)
  rw [Nat.sub_zero, Nat.sub_zero] at hline
  unfold rewrittenHeader
  rw [hstart, hline]
  dsimp only [List.headD_cons, List.tail_cons]
  rw [htake]
  rfl

lemma length_headerEnd (value : Str) :
    (headerEnd value).length = (if value = [] then 0 else kExtensionsPrefix.length + value.length + 2) + 2 := by
  unfold headerEnd
  split_ifs <;> simp only [List.length_append, length_crlf, List.length_nil]

lemma ws_rewrite_cases (buffer : Nat → UInt8) (header_len total_len capacity : Nat) (value : Str) :
    ws_rewrite_extensions buffer header_len total_len capacity value = some (0, buffer) ∨
    ∃ ls st, EndsHeader buffer header_len ∧ header_len ≤ total_len ∧
      Lines buffer header_len (line_end buffer 0 header_len + 2) ls ∧
      newHeaderLen header_len (goneLen ls) value + total_len - header_len ≤ capacity ∧
      loop (compactStep header_len) header_len
        ⟨buffer, line_end buffer 0 header_len + 2, line_end buffer 0 header_len + 2⟩ = some st ∧
      ws_rewrite_extensions buffer header_len total_len capacity value =
        some (newHeaderLen header_len (goneLen ls) value,
          Memory.write (Memory.write st.buffer (newHeaderLen header_len (goneLen ls) value)
            (Memory.read st.buffer header_len (total_len - header_len))) st.written (headerEnd value)) := by
  unfold ws_rewrite_extensions
  split
  · exact .inl rfl
  next hframe =>
  simp only [not_or, Nat.not_lt, ne_eq, not_not] at hframe
  obtain ⟨hfour, htotal, -, hcrlf⟩ := hframe
  have h : EndsHeader buffer header_len := ⟨hfour, hcrlf⟩
  split
  · exact .inl rfl
  dsimp only
  split
  · exact .inl rfl
  obtain ⟨-, hcut, hnext, -, -⟩ := h.line (show 0 + 4 ≤ header_len by omega)
  have hfuel : header_len - (line_end buffer 0 header_len + 2) < header_len := by omega
  obtain ⟨r, hr, hspec⟩ : ∃ r, loop (measureStep buffer header_len) header_len (_, 0) = some r ∧ _ :=
    measure_loop h hnext hfuel
  rw [hr]
  cases r with
  | none => exact .inl rfl
  | some removed =>
    obtain ⟨ls, hls, rfl⟩ := hspec removed rfl
    dsimp only
    rw [Nat.zero_add]
    split
    · exact .inl rfl
    next hfits =>
    obtain ⟨st, hst, -⟩ := compact_loop h hls le_rfl (fun _ _ => rfl) hfuel
    rw [hst]
    exact .inr ⟨ls, st, h, htotal, hls, Nat.not_lt.mp hfits, rfl, rfl⟩

lemma rewritten_of_fits (h : EndsHeader buffer header_len) {total_len value ls st} (hls : Lines buffer header_len (line_end buffer 0 header_len + 2) ls)
    (hst : loop (compactStep header_len) header_len
      ⟨buffer, line_end buffer 0 header_len + 2, line_end buffer 0 header_len + 2⟩ = some st)
    (hfit : kExtensionsPrefix.length + value.length < 2 ^ 32) : Rewritten buffer
      (Memory.write (Memory.write st.buffer (newHeaderLen header_len (goneLen ls) value)
        (Memory.read st.buffer header_len (total_len - header_len))) st.written (headerEnd value))
      header_len total_len (newHeaderLen header_len (goneLen ls) value) value := by
  obtain ⟨st', hst', hwritten, htext, hafter⟩ := compact_loop h hls le_rfl (fun _ _ => rfl)
    (show header_len - (line_end buffer 0 header_len + 2) < header_len by omega)
  cases hst.symm.trans hst'
  have hlen := hls.length_eq
  have hnew : newHeaderLen header_len (goneLen ls) value = st.written + (headerEnd value).length := by
    unfold newHeaderLen
    rw [length_headerEnd, Nat.mod_eq_of_lt hfit]
    split_ifs <;> omega
  have htail : Memory.read st.buffer header_len (total_len - header_len) =
      Memory.read buffer header_len (total_len - header_len) :=
    Memory.read_congr fun k hk _ => hafter k (by omega)
  refine ⟨?_, ?_⟩
  · rw [rewrittenHeader_eq h value hls, hnew, Memory.read_add, Nat.zero_add, Memory.read_write_of_le (by omega),
      Memory.read_write, Memory.read_write_of_le (by omega), htext]
  · rw [hnew, Memory.read_write_of_ge le_rfl, htail]
    have hread := Memory.read_write st.buffer (st.written + (headerEnd value).length)
      (Memory.read buffer header_len (total_len - header_len))
    rw [Memory.length_read] at hread
    exact hread

lemma not_rewritten_of_wraps {total_len n value} (hn : n < 2 ^ 32)
    (hwraps : 2 ^ 32 ≤ kExtensionsPrefix.length + value.length) :
    ¬Rewritten buffer buffer' header_len total_len n value := by
  intro h
  have hlen := congrArg List.length h.header
  have hne : value ≠ [] := by
    rintro rfl
    exact absurd hwraps (by decide)
  rw [Memory.length_read, rewrittenHeader, List.length_append, length_headerEnd, if_neg hne] at hlen
  omega

def extensionHead : Str :=
  lit ['G',' ','/','\r','\n','A',':','\r','\n','S','e','c','-','W','e','b','S','o','c','k','e','t','-',
    'E','x','t','e','n','s','i','o','n','s',':','x','\r','\n','B',':','\r','\n','\r','\n','!','!']

def shortHead : Str := lit ['a','\r','\n','\r','\n']

lemma shortHead_accepted {value} (hall : value.all isExtensionOctet = true) (hlen : value.length = 2 ^ 32 - 26) :
    ∃ buffer', ws_rewrite_extensions (fun k => shortHead.getD k 0) 5 5 100 value = some (7, buffer') := by
  have hne : value ≠ [] := List.ne_nil_of_length_pos (by omega)
  have hnew : newHeaderLen 5 0 value = 7 := by
    unfold newHeaderLen
    rw [if_neg hne, hlen]
    rfl
  have hmeasure : loop (measureStep (fun k => shortHead.getD k 0) 5) 5 (3, 0) = some (some 0) := by decide
  have hcompact : loop (compactStep 5) 5 ⟨fun k => shortHead.getD k 0, 3, 3⟩ =
      some ⟨fun k => shortHead.getD k 0, 3, 3⟩ := rfl
  have hfirst : line_end (fun k => shortHead.getD k 0) 0 5 = 1 := by decide
  unfold ws_rewrite_extensions
  rw [if_neg (by decide), hall, if_neg (by decide), hfirst]
  rw [if_neg (by decide), hmeasure]
  dsimp only
  rw [hnew, if_neg (by decide), hcompact]
  exact ⟨_, rfl⟩

end Rut.Ws
