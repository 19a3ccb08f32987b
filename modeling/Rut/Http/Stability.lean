import Rut.Http.ScanSpec

/-!
# Prefix stability of the request parser

`HttpParser::parse` restarts from the first byte whenever more bytes have arrived. The reader of the head is a stable
reader (`parseHead_stable`), which settles every verdict except those taken at the label `maybe_incomplete`. There the
parser looks for an empty line in the whole buffer; the lines it has accepted contain none (`noHeaderEnd_lines`), so
that no longer buffer can repair it.
-/

namespace Rut.Http

open Incremental

def headerEndMark : Str := lit ['\r','\n','\r','\n']

/-- No empty line inside `s`. -/
def NoHeaderEnd (s : Str) : Prop := ¬ headerEndMark <:+: s

lemma findHeaderEndLoop_pos {s i} : 0 < findHeaderEndLoop s i ↔ headerEndMark <:+: s := by
  induction s generalizing i with
  | nil => simp [findHeaderEndLoop, headerEndMark, lit]
  | cons a s ih =>
    rw [List.infix_cons_iff, ← ih (i := i + 1)]
    rcases s with - | ⟨b, - | ⟨c, - | ⟨d, s⟩⟩⟩
    · simp [findHeaderEndLoop, headerEndMark, lit]
    · simp [findHeaderEndLoop, headerEndMark, lit]
    · simp [findHeaderEndLoop, headerEndMark, lit]
    · rw [findHeaderEndLoop]
      split_ifs with h
      · obtain ⟨rfl, rfl, rfl, rfl⟩ := h
        simp [headerEndMark, lit]
      · simp only [headerEndMark, lit, List.map_cons, List.map_nil, List.cons_prefix_cons,
          List.nil_prefix, and_true]
        constructor
        · exact fun hp => .inr hp
        · rintro (⟨rfl, rfl, rfl, rfl⟩ | hp)
          · exact absurd ⟨rfl, rfl, rfl, rfl⟩ h
          · exact hp

lemma findHeaderEnd_pos {buf} : 0 < findHeaderEnd buf ↔ ¬ NoHeaderEnd buf := by
  rw [findHeaderEnd, findHeaderEndLoop_pos, NoHeaderEnd, not_not]

/-- The ways to cut `headerEndMark` into two non-empty parts. -/
lemma headerEndMark_split {l₁ l₂} (h : headerEndMark = l₁ ++ l₂) (h₁ : l₁ ≠ []) (h₂ : l₂ ≠ []) :
    (l₁ = lit ['\r'] ∧ l₂ = lit ['\n','\r','\n']) ∨ (l₁ = lit ['\r','\n'] ∧ l₂ = lit ['\r','\n']) ∨
    (l₁ = lit ['\r','\n','\r'] ∧ l₂ = lit ['\n']) := by
  rcases l₁ with _ | ⟨a, _ | ⟨b, _ | ⟨c, _ | ⟨d, l⟩⟩⟩⟩
  · exact absurd rfl h₁
  all_goals
    simp only [headerEndMark, lit, List.map_cons, List.map_nil, List.cons_append, List.nil_append,
      List.cons.injEq, List.nil_eq_append_iff] at h
    grind [lit]

lemma NoHeaderEnd.append_of {u w} (hu : NoHeaderEnd u) (hw : NoHeaderEnd w)
    (hj : ∀ l₁ l₂, headerEndMark = l₁ ++ l₂ → l₁ ≠ [] → l₂ ≠ [] → l₁ <:+ u → ¬ l₂ <+: w) : NoHeaderEnd (u ++ w) := by
  intro h
  rcases List.infix_append_iff.mp h with h | h | ⟨l₁, l₂, hl, h₁, h₂⟩
  · exact hu h
  · exact hw h
  · rcases eq_or_ne l₁ [] with rfl | n₁
    · rw [List.nil_append] at hl
      exact hw (hl ▸ h₂.isInfix)
    rcases eq_or_ne l₂ [] with rfl | n₂
    · rw [List.append_nil] at hl
      exact hu (hl ▸ h₁.isInfix)
    exact hj l₁ l₂ hl n₁ n₂ h₁ h₂

lemma NoHeaderEnd.append_line {u w} (hu : NoHeaderEnd u) (hw : NoHeaderEnd w)
    (hh : ∃ c w', w = c :: w' ∧ c ≠ ch '\r' ∧ c ≠ ch '\n') : NoHeaderEnd (u ++ w) := by
  obtain ⟨c, w', rfl, hcr, hlf⟩ := hh
  refine hu.append_of hw fun l₁ l₂ hl n₁ n₂ _ h₂ => ?_
  rcases headerEndMark_split hl n₁ n₂ with ⟨-, rfl⟩ | ⟨-, rfl⟩ | ⟨-, rfl⟩
  · exact hlf (by simpa [lit] using (List.cons_prefix_cons.mp h₂).1.symm)
  · exact hcr (by simpa [lit] using (List.cons_prefix_cons.mp h₂).1.symm)
  · exact hlf (by simpa [lit] using (List.cons_prefix_cons.mp h₂).1.symm)

lemma noHeaderEnd_of_count {w} (h : w.count (ch '\r') ≤ 1) : NoHeaderEnd w := by
  intro hw
  have h2 := hw.sublist.count_le (ch '\r')
  have : headerEndMark.count (ch '\r') = 2 := by decide
  omega

lemma not_mem_of_table {table} {s : Str} {b} (hb : tableAt table b = false)
    (hs : ∀ c ∈ s, tableAt table c = true) : b ∉ s := by
  intro hm
  rw [hs b hm] at hb
  cases hb

lemma HeaderParts.not_mem_cr (p : HeaderParts) : ch '\r' ∉ p.line := by
  have h1 := not_mem_of_table tableAt_token_cr p.name_token
  have h2 : ch '\r' ∉ p.ows := fun hm => by have := p.ows_ows _ hm; revert this; decide
  have h3 : ch '\r' ∉ p.text := fun hm => (p.text_valid _ hm).1 rfl
  simp only [HeaderParts.line, List.mem_append, List.mem_cons, not_or]
  exact ⟨h1, by decide, h2, h3⟩

lemma HeaderParts.noHeaderEnd (p : HeaderParts) : NoHeaderEnd p.bytes := by
  apply noHeaderEnd_of_count
  rw [HeaderParts.bytes, List.count_append, List.count_eq_zero.mpr p.not_mem_cr]
  decide

lemma RequestLine.not_mem_cr (l : RequestLine) : ch '\r' ∉ l.method.bytes ++ l.target := by
  have h1 : ch '\r' ∉ l.method.bytes := by cases l.method <;> decide
  have h2 := not_mem_of_table (by decide : tableAt kUriTable (ch '\r') = false)
    (fun c hc => (l.target_valid c hc).2)
  simp [h1, h2]

lemma RequestLine.noHeaderEnd (l : RequestLine) : NoHeaderEnd l.bytes := by
  apply noHeaderEnd_of_count
  rw [RequestLine.bytes, List.count_append, List.count_eq_zero.mpr l.not_mem_cr]
  cases l.version <;> decide

lemma noHeaderEnd_lines (l : RequestLine) (ps : List HeaderParts) :
    NoHeaderEnd (l.bytes ++ ps.flatMap HeaderParts.bytes) ∧
      (l.bytes ++ ps.flatMap HeaderParts.bytes).getLast? = some (ch '\n') := by
  induction ps using List.reverseRecOn with
  | nil =>
    rw [List.flatMap_nil, List.append_nil]
    refine ⟨l.noHeaderEnd, ?_⟩
    cases hv : l.version <;> simp [RequestLine.bytes, hv, HttpVersion.bytes, lit]
  | append_singleton ps p ih =>
    rw [List.flatMap_append, ← List.append_assoc]
    simp only [List.flatMap_cons, List.flatMap_nil, List.append_nil]
    refine ⟨ih.1.append_line p.noHeaderEnd ?_, by simp [HeaderParts.bytes]⟩
    obtain ⟨c, d, w, hl, hcr, hlf⟩ := p.line_cons
    exact ⟨c, d :: w ++ [ch '\r', ch '\n'], by simp [HeaderParts.bytes, hl], hcr, hlf⟩

lemma getLast_of_suffix {l s : Str} {b} (h : l <:+ s) (hs : s.getLast? = some b)
    (hl : l ≠ []) : l.getLast? = some b := by
  obtain ⟨u, rfl⟩ := h
  rwa [List.getLast?_append_of_ne_nil _ hl] at hs

lemma noHeaderEnd_lines_append {u t} (hu : NoHeaderEnd u) (hl : u.getLast? = some (ch '\n'))
    (ht : t.length < 2) : NoHeaderEnd (u ++ t) := by
  have hw : NoHeaderEnd t := fun h => by
    have := h.length_le
    simp [headerEndMark, lit] at this
    omega
  refine hu.append_of hw fun l₁ l₂ hs n₁ n₂ h₁ h₂ => ?_
  have hlen := h₂.length_le
  rcases headerEndMark_split hs n₁ n₂ with ⟨-, rfl⟩ | ⟨-, rfl⟩ | ⟨rfl, -⟩
  · simp [lit] at hlen; omega
  · simp [lit] at hlen; omega
  · have := getLast_of_suffix h₁ hl n₁
    simp [lit] at this

lemma parseHead_done_noHeaderEnd {s req r} (h : parseHead s = .done req r) :
    2 ≤ s.length - r.length ∧ NoHeaderEnd (s.take (s.length - r.length - 1)) := by
  obtain ⟨l, ps, req0, rfl, -, -, -⟩ := parseHead_done h
  obtain ⟨hu, hl⟩ := noHeaderEnd_lines l ps
  generalize l.bytes ++ ps.flatMap HeaderParts.bytes = u at hu hl
  have hlen : (u ++ ch '\r' :: ch '\n' :: r).length - r.length = u.length + 2 := by simp; omega
  rw [hlen]
  refine ⟨by omega, ?_⟩
  have htake : (u ++ ch '\r' :: ch '\n' :: r).take (u.length + 2 - 1) = u ++ [ch '\r'] := by
    rw [List.take_append]
    simp
  rw [htake]
  exact noHeaderEnd_lines_append hu hl (by simp)

lemma parseHead_needMore_noHeaderEnd {s} (h : parseHead s = .stall .needMore) : NoHeaderEnd s := by
  obtain ⟨l, ps, t, rfl, ht⟩ := parseHead_needMore h
  obtain ⟨hu, hl⟩ := noHeaderEnd_lines l ps
  exact noHeaderEnd_lines_append hu hl ht

lemma NoHeaderEnd.of_prefix {s t : Str} (h : NoHeaderEnd t) (hp : s <+: t) : NoHeaderEnd s :=
  fun hs => h (hs.trans hp.isInfix)

/-- The complete outcome of `parse` in terms of the reader of the head. -/
lemma parse_complete_iff {buf req h} : parse buf = .complete req h ↔
      ∃ rest, 4 ≤ buf.length ∧ parseHead buf = .done req rest ∧ h = buf.length - rest.length := by
  by_cases hlen : buf.length < 4
  · simp only [parse, if_pos hlen]
    constructor
    · intro hc
      cases hc
    · rintro ⟨rest, h4, -, -⟩
      omega
  · have h4 : 4 ≤ buf.length := by omega
    cases hp : parseHead buf with
    | done req' rest =>
      simp only [parse, if_neg hlen, hp, ParseResult.complete.injEq, Read.done.injEq]
      constructor
      · rintro ⟨rfl, rfl⟩
        exact ⟨rest, h4, ⟨rfl, rfl⟩, rfl⟩
      · rintro ⟨r, -, ⟨rfl, rfl⟩, rfl⟩
        exact ⟨rfl, rfl⟩
    | fail => simp [parse, hlen, hp]
    | stall e => cases e <;> simp [parse, hlen, hp]; split_ifs <;> simp

/-- The error outcome of `parse` in terms of the reader of the head. -/
lemma parse_error_iff {buf} : parse buf = .error ↔
      4 ≤ buf.length ∧ (parseHead buf = .fail ∨ parseHead buf = .stall .maybe ∧ ¬ NoHeaderEnd buf) := by
  by_cases hlen : buf.length < 4
  · simp only [parse, if_pos hlen]
    constructor
    · intro hc
      cases hc
    · rintro ⟨h4, -⟩
      omega
  · have h4 : 4 ≤ buf.length := by omega
    cases hp : parseHead buf with
    | done req' rest => simp [parse, hlen, hp]
    | fail => simp [parse, hlen, hp, h4]
    | stall e =>
      cases e with
      | needMore => simp [parse, hlen, hp]
      | maybe => simp [parse, hlen, hp, h4, findHeaderEnd_pos]

lemma parse_complete_append {b req h} (hc : parse b = .complete req h) (t : Str) :
    parse (b ++ t) = .complete req h := by
  obtain ⟨rest, hlen, hp, rfl⟩ := parse_complete_iff.mp hc
  refine parse_complete_iff.mpr ⟨rest ++ t, by simp; omega, parseHead_stable.done_append hp t, ?_⟩
  simp
  omega

lemma parse_prefix_incomplete {b t req h} (hc : parse (b ++ t) = .complete req h)
    (hlt : b.length < h) : parse b = .incomplete := by
  obtain ⟨rest, -, hp, rfl⟩ := parse_complete_iff.mp hc
  obtain ⟨h2, hno⟩ := parseHead_done_noHeaderEnd hp
  have hpre : b <+: (b ++ t).take ((b ++ t).length - rest.length - 1) := by
    rw [List.prefix_take_iff]
    exact ⟨List.prefix_append b t, by omega⟩
  obtain ⟨e, he⟩ := parseHead_stable.stall_of_lt hp (List.prefix_append b t) hlt
  have hend : findHeaderEnd b = 0 := by
    by_contra hpos
    exact findHeaderEnd_pos.mp (Nat.pos_of_ne_zero hpos) (hno.of_prefix hpre)
  by_cases hlen : b.length < 4
  · simp [parse, hlen]
  · cases e <;> simp [parse, hlen, he, hend]

/-- Errors are final. An error found at `maybe_incomplete` rests on an empty line in the buffer: a
longer buffer has it too, so it can neither be complete behind it nor wait for one. -/
lemma parse_error_append {b} (he : parse b = .error) (t : Str) : parse (b ++ t) = .error := by
  obtain ⟨hlen, hp⟩ := parse_error_iff.mp he
  refine parse_error_iff.mpr ⟨by simp; omega, ?_⟩
  rcases hp with hf | ⟨hm, hend⟩
  · exact .inl (parseHead_stable.fail t hf)
  · have hend' : ¬ NoHeaderEnd (b ++ t) := fun h => hend (h.of_prefix (List.prefix_append b t))
    cases hbt : parseHead (b ++ t) with
    | fail => exact .inl rfl
    | stall e =>
      cases e with
      | maybe => exact .inr ⟨rfl, hend'⟩
      | needMore => exact absurd (parseHead_needMore_noHeaderEnd hbt) hend'
    | done req r =>
      obtain ⟨-, hno⟩ := parseHead_done_noHeaderEnd hbt
      rcases Nat.lt_or_ge b.length ((b ++ t).length - r.length) with hlt | hge
      · have hpre : b <+: (b ++ t).take ((b ++ t).length - r.length - 1) := by
          rw [List.prefix_take_iff]
          exact ⟨List.prefix_append b t, by omega⟩
        exact absurd (hno.of_prefix hpre) hend
      · obtain ⟨r', hr⟩ := parseHead_stable.done_of_le hbt (List.prefix_append b t) hge
        rw [hm] at hr
        cases hr

/-- The receive loop: parse the buffer again after every receive until there is a verdict. -/
def parseReceives : Str → List Str → ParseResult
  | _, [] => .incomplete
  | buf, seg :: segs =>
    match parse (buf ++ seg) with
    | .incomplete => parseReceives (buf ++ seg) segs
    | verdict => verdict

lemma parseReceives_eq {buf} (segs : List Str) (hb : parse buf = .incomplete) :
    parseReceives buf segs = parse (buf ++ segs.flatten) := by
  induction segs generalizing buf with
  | nil => rw [List.flatten_nil, List.append_nil, hb]; rfl
  | cons seg segs ih =>
    rw [List.flatten_cons, ← List.append_assoc]
    cases hp : parse (buf ++ seg) with
    | incomplete => rw [parseReceives, hp, ← ih hp]
    | complete req h => rw [parseReceives, hp, parse_complete_append hp]
    | error => rw [parseReceives, hp, parse_error_append hp]

/-- Prefix stability of the request parser: complete and error verdicts are final, a proper prefix of a
complete head is incomplete, and so the outcome for a stream does not depend on its receives. -/
theorem parse_prefix_stable (b t : Str) :
    (∀ req h, parse b = .complete req h → parse (b ++ t) = .complete req h) ∧
    (parse b = .error → parse (b ++ t) = .error) ∧
    (∀ req h, parse (b ++ t) = .complete req h → b.length < h → parse b = .incomplete) ∧
    (∀ segs : List Str, parseReceives [] segs = parse segs.flatten) := by
  refine ⟨fun req h hc => parse_complete_append hc t, fun he => parse_error_append he t,
    fun req h hc hlt => parse_prefix_incomplete hc hlt, fun segs => ?_⟩
  exact parseReceives_eq segs (by rfl)

end Rut.Http
