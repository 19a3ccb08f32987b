import Rut.Http.Grammar
import Rut.Http.HeaderValidation
import Rut.Lib.Loop

/-!
# Header overrides of forwarded requests

Port of `apply_request_header_overrides` (`include/rut/runtime/callbacks_impl.h`). The overrides are applied to the head
in the receive buffer, in place: lines are located by scanning for line feeds and colons and replaced by moving the
bytes behind them. A buffer is one receive slice, so that lengths are natural numbers. On the level of field lines an
override is `HeaderOverride.apply`, and `Laid` ties the buffer to the lines it holds.
-/

set_option linter.all false
namespace Rut.Conn

open Http

/-- What the overrides change of a connection: the received bytes, the end of the head and the length that is
forwarded at first. -/
structure RequestBuf where
  bytes : Str
  capacity : Nat
  headerEnd : Nat
  sendLen : Nat
deriving DecidableEq

/-- An override with its mode bits (`ReqHeaderOverride`), and whether its name or value lies in the receive buffer. -/
structure HeaderOverride where
  name : Str
  value : Str
  append : Bool := false
  remove : Bool := false
  aliasesRecvBuf : Bool := false
deriving DecidableEq

def HeaderOverride.line (o : HeaderOverride) : RawField := ⟨o.name, ch ' ' :: o.value⟩

namespace RequestBuf

/-- Replace `oldSpan` bytes at `pos` (`splice`). -/
def splice (c : RequestBuf) (pos oldSpan : Nat) (line : Str) : Option RequestBuf :=
  if line.length > oldSpan ∧ c.bytes.length + (line.length - oldSpan) > c.capacity then none
  else
    some { c with
      bytes := c.bytes.take pos ++ line ++ c.bytes.drop (pos + oldSpan)
      headerEnd := c.headerEnd + line.length - oldSpan
      sendLen := if c.sendLen > pos then c.sendLen + line.length - oldSpan else c.sendLen }

/-- The loop of `find_field` over the lines of `head` from offset `i` on. -/
def findFieldLoop (head name : Str) : Nat → Nat → Option (Nat × Nat)
  | 0, _ => none
  | fuel + 1, i =>
    if i ≥ head.length then none
    else
      let field := (head.drop i).takeWhile fun c => c != ch ':' && c != ch '\n'
      let line := (head.drop i).takeWhile (· != ch '\n')
      let lineEnd := if i + line.length < head.length then i + line.length + 1 else head.length
      if (head.drop i)[field.length]? = some (ch ':') ∧ httpHeaderNameEqCi field name then some (i, lineEnd)
      else findFieldLoop head name fuel lineEnd

/-- Start and end of the first field line with a name at or behind an offset (`find_field`). -/
def findField (c : RequestBuf) (name : Str) (start : Nat) : Option (Nat × Nat) :=
  if c.headerEnd < 4 ∨ c.headerEnd > c.bytes.length then none
  else
    let requestLine := (c.bytes.take c.headerEnd).takeWhile (· != ch '\n')
    if requestLine.length ≥ c.headerEnd then none
    else
      findFieldLoop (c.bytes.take (c.headerEnd - 2)) name c.headerEnd (max (requestLine.length + 1) start)

/-- The loop that deletes the lines with a name, going on where it deleted one. -/
def removeFields (name : Str) : Nat → RequestBuf → Nat → Option RequestBuf
  | 0, c, _ => some c
  | fuel + 1, c, start =>
    match c.findField name start with
    | none => some c
    | some (fieldStart, fieldEnd) =>
      match c.splice fieldStart (fieldEnd - fieldStart) [] with
      | none => none
      | some c => removeFields name fuel c fieldStart

/-- The loop behind a line that was set, which looks from the same offset every time. -/
def dropRemaining (name : Str) (start : Nat) : Nat → RequestBuf → RequestBuf
  | 0, c => c
  | fuel + 1, c =>
    match c.findField name start with
    | none => c
    | some (fieldStart, fieldEnd) =>
      dropRemaining name start fuel ((c.splice fieldStart (fieldEnd - fieldStart) []).getD c)

/-- Write the line of a set override over the first line with its name or in front of the empty line, and where to look
for further ones. -/
def setLine (c : RequestBuf) (o : HeaderOverride) : Option (RequestBuf × Nat) :=
  match c.findField o.name 0 with
  | some (fieldStart, fieldEnd) =>
    (c.splice fieldStart (fieldEnd - fieldStart) o.line.bytes).map fun c => (c, fieldStart + o.line.bytes.length)
  | none =>
    (c.splice (c.headerEnd - 2) 0 o.line.bytes).map fun c' => (c', c.headerEnd - 2 + o.line.bytes.length)

def applyOverride (c : RequestBuf) (o : HeaderOverride) : Option RequestBuf :=
  if o.remove ∧ (o.append ∨ o.value ≠ []) then none
  else if validateResponseHeader o.name o.value ≠ .ok then none
  else if o.aliasesRecvBuf then none
  else if c.headerEnd < 4 ∨ c.headerEnd > c.bytes.length then none
  else if o.remove then removeFields o.name c.bytes.length c 0
  else if o.append then c.splice (c.headerEnd - 2) 0 o.line.bytes
  else (c.setLine o).map fun (c, start) => dropRemaining o.name start c.bytes.length c

/-- Apply the recorded overrides, `none` if one cannot be applied (`apply_request_header_overrides`). -/
def applyRequestHeaderOverrides (c : RequestBuf) (overflow : Bool) (overrides : List HeaderOverride) :
    Option RequestBuf :=
  if overrides = [] ∧ !overflow then some c
  else if overflow then none
  else overrides.foldlM applyOverride c

end RequestBuf

/-! ## Overrides of field lines -/

def SameName (name : Str) (f : RawField) : Prop := lower f.name = lower name

instance (name : Str) : DecidablePred (SameName name) := fun f => inferInstanceAs (Decidable (lower f.name = lower name))

def removeLines (name : Str) (fs : List RawField) : List RawField := fs.filter fun f => ¬ SameName name f

/-- The line in the place of the first one with its name, or at the end, and no other with its name. -/
def setLines (f : RawField) : List RawField → List RawField
  | [] => [f]
  | g :: gs => if SameName f.name g then f :: removeLines f.name gs else g :: setLines f gs

def HeaderOverride.apply (o : HeaderOverride) (fs : List RawField) : List RawField :=
  if o.remove then removeLines o.name fs
  else if o.append then fs ++ [o.line]
  else setLines o.line fs

/-! ## Lines in the buffer -/

structure CleanLine (f : RawField) : Prop where
  name_colon : ch ':' ∉ f.name
  name_lf : ch '\n' ∉ f.name
  raw_lf : ch '\n' ∉ f.raw

/-- The buffer holds a request line, the field lines, the empty line and what follows the head. -/
structure Laid (line : Str) (rest : Str) (fs : List RawField) (c : RequestBuf) : Prop where
  line_lf : ch '\n' ∉ line
  clean : ∀ f ∈ fs, CleanLine f
  bytes : c.bytes = line ++ [ch '\r', ch '\n'] ++ fs.flatMap RawField.bytes ++ [ch '\r', ch '\n'] ++ rest
  headerEnd : c.headerEnd = (line ++ [ch '\r', ch '\n'] ++ fs.flatMap RawField.bytes).length + 2
  sendLen : c.headerEnd ≤ c.sendLen

def offset (line : Str) (fs : List RawField) : Nat := (line ++ [ch '\r', ch '\n'] ++ fs.flatMap RawField.bytes).length

lemma offset_append (line : Str) (fs gs : List RawField) :
    offset line (fs ++ gs) = offset line fs + (gs.flatMap RawField.bytes).length := by
  simp [offset]
  omega

section loop

variable {name : Str} {fs gs : List RawField}

lemma line_scan {f} (hf : CleanLine f) (t : Str) :
    (f.bytes ++ t).takeWhile (fun b => b != ch ':' && b != ch '\n') = f.name ∧
      (f.bytes ++ t)[f.name.length]? = some (ch ':') ∧
      (f.bytes ++ t).takeWhile (· != ch '\n') = f.name ++ ch ':' :: (f.raw ++ [ch '\r']) := by
  have hname : ∀ b ∈ f.name, (b != ch ':' && b != ch '\n') = true := by
    intro b hb
    simp only [Bool.and_eq_true, bne_iff_ne]
    exact ⟨fun h => hf.name_colon (h ▸ hb), fun h => hf.name_lf (h ▸ hb)⟩
  have hline : ∀ b ∈ f.name ++ ch ':' :: (f.raw ++ [ch '\r']), (b != ch '\n') = true := by
    intro b hb
    simp only [bne_iff_ne]
    rintro rfl
    simp only [List.mem_append, List.mem_cons, List.not_mem_nil, or_false] at hb
    rcases hb with hb | hb | hb | hb
    · exact hf.name_lf hb
    · exact absurd hb (by decide)
    · exact hf.raw_lf hb
    · exact absurd hb (by decide)
  refine ⟨?_, ?_, ?_⟩
  · rw [RawField.bytes, List.append_assoc, List.takeWhile_append_of_pos hname]
    simp
  · rw [RawField.bytes, List.append_assoc, List.getElem?_append_right le_rfl]
    simp
  · have hcut : f.bytes ++ t = (f.name ++ ch ':' :: (f.raw ++ [ch '\r'])) ++ ch '\n' :: t := by simp [RawField.bytes]
    rw [hcut, List.takeWhile_append_of_pos hline]
    simp

lemma bytes_length (f : RawField) : f.bytes.length = (f.name ++ ch ':' :: (f.raw ++ [ch '\r'])).length + 1 := by
  simp [RawField.bytes]
  omega

lemma length_le_flatMap (gs : List RawField) : gs.length ≤ (gs.flatMap RawField.bytes).length := by
  induction gs with
  | nil => simp
  | cons g gs ih =>
    have := bytes_length g
    simp only [List.length_cons, List.flatMap_cons, List.length_append] at this ⊢
    omega

/-- One turn of the loop of `find_field`. -/
lemma findFieldLoop_turn {g} (hg : CleanLine g) (pre t : Str) (fuel : Nat) :
    RequestBuf.findFieldLoop (pre ++ g.bytes ++ t) name (fuel + 1) pre.length =
      if SameName name g then some (pre.length, (pre ++ g.bytes).length)
      else RequestBuf.findFieldLoop (pre ++ g.bytes ++ t) name fuel (pre ++ g.bytes).length := by
  obtain ⟨hname, hcolon, hline⟩ := line_scan hg t
  have hlen := bytes_length g
  have hdrop : (pre ++ g.bytes ++ t).drop pre.length = g.bytes ++ t := by simp
  have hin : ¬ pre.length ≥ (pre ++ g.bytes ++ t).length := by
    simp only [List.length_append] at hlen ⊢
    omega
  have hend : (if pre.length + (g.name ++ ch ':' :: (g.raw ++ [ch '\r'])).length < (pre ++ g.bytes ++ t).length then
        pre.length + (g.name ++ ch ':' :: (g.raw ++ [ch '\r'])).length + 1
      else (pre ++ g.bytes ++ t).length) = (pre ++ g.bytes).length := by
    simp only [List.length_append] at hlen ⊢
    rw [if_pos (by omega)]
    omega
  rw [RequestBuf.findFieldLoop, if_neg hin]
  simp only [hdrop, hname, hcolon, hline, hend, true_and, httpHeaderNameEqCi_iff]
  rfl

lemma findFieldLoop_none (hclean : ∀ f ∈ gs, CleanLine f) (hno : ∀ f ∈ gs, ¬ SameName name f) (pre : Str) (fuel : Nat) :
    RequestBuf.findFieldLoop (pre ++ gs.flatMap RawField.bytes) name fuel pre.length = none := by
  induction gs generalizing fuel pre with
  | nil =>
    cases fuel with
    | zero => rfl
    | succ fuel => simp [RequestBuf.findFieldLoop]
  | cons g gs ih =>
    cases fuel with
    | zero => rfl
    | succ fuel =>
      rw [List.flatMap_cons, ← List.append_assoc, findFieldLoop_turn (hclean g (by simp)), if_neg (hno g (by simp))]
      exact ih (fun f hf => hclean f (by simp [hf])) (fun f hf => hno f (by simp [hf])) _ fuel

lemma findFieldLoop_some {f} (hclean : ∀ g ∈ fs ++ [f], CleanLine g) (hno : ∀ g ∈ fs, ¬ SameName name g)
    (hf : SameName name f) {fuel} (hfuel : fs.length < fuel) (pre t : Str) :
    RequestBuf.findFieldLoop (pre ++ fs.flatMap RawField.bytes ++ f.bytes ++ t) name fuel pre.length =
      some ((pre ++ fs.flatMap RawField.bytes).length, (pre ++ fs.flatMap RawField.bytes ++ f.bytes).length) := by
  induction fs generalizing fuel pre with
  | nil =>
    obtain ⟨fuel, rfl⟩ : ∃ k, fuel = k + 1 := ⟨fuel - 1, by simp at hfuel; omega⟩
    rw [List.flatMap_nil, List.append_nil, findFieldLoop_turn (hclean f (by simp)), if_pos hf]
  | cons g gs ih =>
    obtain ⟨fuel, rfl⟩ : ∃ k, fuel = k + 1 := ⟨fuel - 1, by simp at hfuel; omega⟩
    have hturn := @findFieldLoop_turn name g (hclean g (by simp)) pre (gs.flatMap RawField.bytes ++ f.bytes ++ t) fuel
    rw [if_neg (hno g (by simp))] at hturn
    have hih := ih (fun f hf => hclean f (by simp [hf])) (fun f hf => hno f (by simp [hf])) (by simpa using hfuel)
      (pre ++ g.bytes)
    simp only [List.flatMap_cons, List.append_assoc] at hturn hih ⊢
    rw [hturn, hih]

end loop

section laid

variable {line rest name : Str} {fs gs as bs : List RawField} {c c' : RequestBuf}

lemma Laid.findField_eq (h : Laid line rest fs c) (name : Str) (start : Nat) : c.findField name start =
      RequestBuf.findFieldLoop (line ++ [ch '\r', ch '\n'] ++ fs.flatMap RawField.bytes) name c.headerEnd
        (max (offset line []) start) := by
  have hlen : c.headerEnd ≤ c.bytes.length := by
    rw [h.bytes, h.headerEnd]
    simp
    omega
  have hhead : c.bytes.take (c.headerEnd - 2) = line ++ [ch '\r', ch '\n'] ++ fs.flatMap RawField.bytes := by
    rw [h.bytes, h.headerEnd, Nat.add_sub_cancel, List.append_assoc _ [ch '\r', ch '\n'] rest, List.take_left]
  have hfirst : (c.bytes.take c.headerEnd).takeWhile (· != ch '\n') = line ++ [ch '\r'] := by
    have hno : ∀ b ∈ line ++ [ch '\r'], (b != ch '\n') = true := by
      intro b hb
      simp only [bne_iff_ne]
      rintro rfl
      rcases List.mem_append.mp hb with hb | hb
      · exact h.line_lf hb
      · exact absurd (List.mem_singleton.mp hb) (by decide)
    have hcut : c.bytes.take c.headerEnd =
        (line ++ [ch '\r']) ++ ch '\n' :: (fs.flatMap RawField.bytes ++ [ch '\r', ch '\n']) := by
      have hpre : c.bytes = (line ++ [ch '\r', ch '\n'] ++ fs.flatMap RawField.bytes ++ [ch '\r', ch '\n']) ++ rest :=
        h.bytes
      have hend : c.headerEnd =
          (line ++ [ch '\r', ch '\n'] ++ fs.flatMap RawField.bytes ++ [ch '\r', ch '\n']).length := by
        rw [h.headerEnd]
        exact (@List.length_append _ _ [ch '\r', ch '\n']).symm
      rw [hpre, hend, List.take_left]
      simp
    rw [hcut, List.takeWhile_append_of_pos hno]
    simp
  have h4 : ¬ (c.headerEnd < 4 ∨ c.headerEnd > c.bytes.length) := by
    have hge : 4 ≤ c.headerEnd := by
      rw [h.headerEnd]
      simp
      omega
    omega
  have hin : ¬ (line ++ [ch '\r']).length ≥ c.headerEnd := by
    rw [h.headerEnd]
    simp
  rw [RequestBuf.findField, if_neg h4]
  simp only [hfirst, hhead]
  rw [if_neg hin]
  simp [offset]

lemma Laid.findField_none (h : Laid line rest (as ++ bs) c) (hno : ∀ f ∈ bs, ¬ SameName name f) :
    c.findField name (offset line as) = none := by
  have hmax : max (offset line []) (offset line as) = (line ++ [ch '\r', ch '\n'] ++ as.flatMap RawField.bytes).length := by
    simp [offset]
  rw [h.findField_eq, hmax, List.flatMap_append, ← List.append_assoc]
  exact findFieldLoop_none (fun f hf => h.clean f (List.mem_append_right _ hf)) hno _ _

lemma Laid.findField_some {f} (h : Laid line rest (as ++ (fs ++ f :: bs)) c)
    (hno : ∀ g ∈ fs, ¬ SameName name g) (hf : SameName name f) :
    c.findField name (offset line as) = some (offset line (as ++ fs), offset line (as ++ fs ++ [f])) := by
  have hmax : max (offset line []) (offset line as) = (line ++ [ch '\r', ch '\n'] ++ as.flatMap RawField.bytes).length := by
    simp [offset]
  have hfuel : fs.length < c.headerEnd := by
    have := length_le_flatMap fs
    rw [h.headerEnd]
    simp only [List.flatMap_append, List.length_append]
    omega
  have hloop := @findFieldLoop_some name fs f
    (fun g hg => h.clean g (List.mem_append_right _ (by simp at hg ⊢; tauto))) hno hf _ hfuel
    (line ++ [ch '\r', ch '\n'] ++ as.flatMap RawField.bytes) (bs.flatMap RawField.bytes)
  rw [h.findField_eq, hmax]
  simp only [offset, List.flatMap_append, List.flatMap_cons, List.flatMap_nil, List.append_nil, List.append_assoc] at hloop ⊢
  exact hloop

lemma Laid.splice (h : Laid line rest (as ++ fs ++ bs) c) (hgs : ∀ g ∈ gs, CleanLine g) {oldSpan}
    (hspan : oldSpan = (fs.flatMap RawField.bytes).length)
    (hs : c.splice (offset line as) oldSpan (gs.flatMap RawField.bytes) = some c') :
    Laid line rest (as ++ gs ++ bs) c' ∧ c'.sendLen + c.headerEnd = c.sendLen + c'.headerEnd := by
  subst hspan
  rcases ite_eq_iff.mp hs with ⟨-, hs⟩ | ⟨-, hs⟩
  · cases hs
  cases hs
  have hend := h.headerEnd
  have hsend := h.sendLen
  have hpos : c.sendLen > offset line as := by
    rw [hend] at hsend
    simp only [offset, List.flatMap_append, List.length_append] at hsend ⊢
    omega
  have hcut : c.bytes = (line ++ [ch '\r', ch '\n'] ++ as.flatMap RawField.bytes) ++
      (fs.flatMap RawField.bytes ++ (bs.flatMap RawField.bytes ++ [ch '\r', ch '\n'] ++ rest)) := by
    rw [h.bytes]
    simp
  have htake : c.bytes.take (offset line as) = line ++ [ch '\r', ch '\n'] ++ as.flatMap RawField.bytes := by
    rw [hcut]
    exact List.take_left
  have hdrop : c.bytes.drop (offset line as + (fs.flatMap RawField.bytes).length) =
      bs.flatMap RawField.bytes ++ [ch '\r', ch '\n'] ++ rest := by
    rw [hcut, ← List.append_assoc]
    exact List.drop_left' (by simp only [offset, List.length_append])
  have hclean : ∀ g ∈ as ++ gs ++ bs, CleanLine g := by
    intro g hg
    simp only [List.mem_append] at hg
    rcases hg with (hg | hg) | hg
    · exact h.clean g (by simp [hg])
    · exact hgs g hg
    · exact h.clean g (by simp [hg])
  simp only [List.flatMap_append, List.length_append] at hend
  refine ⟨⟨h.line_lf, hclean, ?_, ?_, ?_⟩, ?_⟩
  · simp only [htake, hdrop]
    simp
  · simp only [List.flatMap_append, List.length_append]
    omega
  · simp only [if_pos hpos]
    omega
  · simp only [if_pos hpos]
    omega

lemma Laid.findField_zero (h : Laid line rest fs c) (name : Str) :
    c.findField name 0 = c.findField name (offset line []) := by
  rw [h.findField_eq, h.findField_eq, max_self, Nat.max_eq_left (Nat.zero_le _)]

lemma Laid.offset_end (h : Laid line rest fs c) : c.headerEnd - 2 = offset line fs := by
  rw [h.headerEnd, offset]
  omega

lemma exists_first (name : Str) (bs : List RawField) : (∀ f ∈ bs, ¬ SameName name f) ∨
      ∃ fs f bs', bs = fs ++ f :: bs' ∧ (∀ g ∈ fs, ¬ SameName name g) ∧ SameName name f := by
  induction bs with
  | nil => exact .inl (by simp)
  | cons b bs ih =>
    by_cases hb : SameName name b
    · exact .inr ⟨[], b, bs, rfl, by simp, hb⟩
    · rcases ih with hno | ⟨fs, f, bs', rfl, hno, hf⟩
      · exact .inl (by simpa [hb] using hno)
      · exact .inr ⟨b :: fs, f, bs', rfl, by simpa [hb] using hno, hf⟩

lemma removeLines_of_none (h : ∀ f ∈ bs, ¬ SameName name f) : removeLines name bs = bs := by
  simpa [removeLines, List.filter_eq_self] using h

lemma removeLines_first {f} (hno : ∀ g ∈ fs, ¬ SameName name g) (hf : SameName name f) :
    removeLines name (fs ++ f :: bs) = fs ++ removeLines name bs := by
  have hfs := removeLines_of_none hno
  simp only [removeLines] at hfs ⊢
  rw [List.filter_append, hfs]
  simp [hf]

lemma Laid.delete {f} (h : Laid line rest (as ++ (fs ++ f :: bs)) c) :
    ∃ c', c.splice (offset line (as ++ fs)) (offset line (as ++ fs ++ [f]) - offset line (as ++ fs)) [] = some c' ∧
      Laid line rest (as ++ fs ++ bs) c' ∧ c'.sendLen + c.headerEnd = c.sendLen + c'.headerEnd := by
  have hspan : offset line (as ++ fs ++ [f]) - offset line (as ++ fs) = ([f].flatMap RawField.bytes).length := by
    rw [offset_append]
    omega
  have hlaid : Laid line rest (as ++ fs ++ [f] ++ bs) c := by simpa using h
  have hsome : ∃ c', c.splice (offset line (as ++ fs))
      (offset line (as ++ fs ++ [f]) - offset line (as ++ fs)) [] = some c' := by
    exact ⟨_, rfl⟩
  obtain ⟨c', hc'⟩ := hsome
  have := @Laid.splice _ _ _ [] _ _ _ _ hlaid (by simp) _ hspan hc'
  simp only [List.append_nil] at this
  exact ⟨c', hc', this⟩

lemma Laid.removeFields (h : Laid line rest (as ++ bs) c) {fuel} (hfuel : bs.length ≤ fuel) :
    ∃ c', RequestBuf.removeFields name fuel c (offset line as) = some c' ∧
      Laid line rest (as ++ removeLines name bs) c' ∧ c'.sendLen + c.headerEnd = c.sendLen + c'.headerEnd := by
  induction fuel generalizing as bs c with
  | zero =>
    obtain rfl := List.length_eq_zero_iff.mp (Nat.le_zero.mp hfuel)
    exact ⟨c, rfl, h, rfl⟩
  | succ fuel ih =>
    rw [RequestBuf.removeFields]
    rcases exists_first name bs with hno | ⟨fs, f, bs', rfl, hno, hf⟩
    · rw [h.findField_none hno, removeLines_of_none hno]
      exact ⟨c, rfl, h, rfl⟩
    · obtain ⟨c₁, hc₁, hlaid, hmoved⟩ := h.delete
      obtain ⟨c', hc', hlaid', hmoved'⟩ := ih hlaid (by simp at hfuel; omega)
      rw [h.findField_some hno hf, removeLines_first hno hf, ← List.append_assoc]
      simp only [hc₁]
      exact ⟨c', hc', hlaid', by omega⟩

lemma Laid.dropRemaining (h : Laid line rest (as ++ bs) c) {fuel} (hfuel : bs.length ≤ fuel) :
    Laid line rest (as ++ removeLines name bs) (RequestBuf.dropRemaining name (offset line as) fuel c) ∧
      (RequestBuf.dropRemaining name (offset line as) fuel c).sendLen + c.headerEnd =
        c.sendLen + (RequestBuf.dropRemaining name (offset line as) fuel c).headerEnd := by
  induction fuel generalizing bs c with
  | zero =>
    obtain rfl := List.length_eq_zero_iff.mp (Nat.le_zero.mp hfuel)
    exact ⟨h, rfl⟩
  | succ fuel ih =>
    rw [RequestBuf.dropRemaining]
    rcases exists_first name bs with hno | ⟨fs, f, bs', rfl, hno, hf⟩
    · rw [h.findField_none hno, removeLines_of_none hno]
      exact ⟨h, rfl⟩
    · obtain ⟨c₁, hc₁, hlaid, hmoved⟩ := h.delete
      have hskip : removeLines name (fs ++ f :: bs') = removeLines name (fs ++ bs') := by
        have hfs := removeLines_of_none hno
        rw [removeLines_first hno hf]
        simp only [removeLines, List.filter_append] at hfs ⊢
        rw [hfs]
      rw [List.append_assoc] at hlaid
      obtain ⟨hlaid', hmoved'⟩ := ih hlaid (by simp at hfuel ⊢; omega)
      rw [h.findField_some hno hf, hskip]
      simp only [hc₁, Option.getD_some]
      exact ⟨hlaid', by omega⟩

lemma Laid.setLine {o} (h : Laid line rest fs c) (ho : CleanLine o.line) {start} (hs : c.setLine o = some (c', start)) :
    ∃ as bs, Laid line rest (as ++ [o.line] ++ bs) c' ∧ start = offset line (as ++ [o.line]) ∧
      setLines o.line fs = as ++ [o.line] ++ removeLines o.name bs ∧
      c'.sendLen + c.headerEnd = c.sendLen + c'.headerEnd := by
  have hbytes : o.line.bytes = [o.line].flatMap RawField.bytes := by simp
  have hset : ∀ (as : List RawField), (∀ g ∈ as, ¬ SameName o.name g) → ∀ tail,
      setLines o.line (as ++ tail) = as ++ setLines o.line tail := by
    intro as hno tail
    induction as with
    | nil => rfl
    | cons a as ih =>
      have ha : ¬ SameName o.line.name a := hno a (by simp)
      rw [List.cons_append, setLines, if_neg ha, ih fun g hg => hno g (by simp [hg])]
      rfl
  unfold RequestBuf.setLine at hs
  rw [h.findField_zero] at hs
  rcases exists_first o.name fs with hno | ⟨as, f, bs, rfl, hno, hf⟩
  · rw [@Laid.findField_none _ _ _ [] _ _ h hno] at hs
    obtain ⟨c₁, hc₁, heq⟩ := Option.map_eq_some_iff.mp hs
    cases heq
    have hend := h.offset_end
    rw [hend, hbytes] at hc₁
    have hlaid : Laid line rest (fs ++ [] ++ []) c := by simpa using h
    obtain ⟨hlaid', hmoved⟩ := hlaid.splice (by simpa using ho) rfl hc₁
    refine ⟨fs, [], hlaid', by rw [hend, hbytes, offset_append], ?_, hmoved⟩
    have := hset fs hno []
    simpa [setLines, removeLines] using this
  · rw [@Laid.findField_some _ _ _ _ [] _ _ _ h hno hf] at hs
    obtain ⟨c₁, hc₁, heq⟩ := Option.map_eq_some_iff.mp hs
    cases heq
    simp only [List.nil_append] at hc₁ ⊢
    have hspan : offset line (as ++ [f]) - offset line as = ([f].flatMap RawField.bytes).length := by
      rw [offset_append]
      omega
    have hlaid : Laid line rest (as ++ [f] ++ bs) c := by simpa using h
    rw [hbytes] at hc₁
    obtain ⟨hlaid', hmoved⟩ := hlaid.splice (by simpa using ho) hspan hc₁
    refine ⟨as, bs, hlaid', by rw [hbytes, offset_append], ?_, hmoved⟩
    have hf' : SameName o.line.name f := hf
    rw [hset as hno, setLines, if_pos hf']
    simp [HeaderOverride.line]

lemma cleanLine_of_validate {o : HeaderOverride} (h : validateResponseHeader o.name o.value = .ok) :
    CleanLine o.line := by
  unfold validateResponseHeader at h
  split_ifs at h with hne hkey hres hval
  simp only [Bool.not_eq_true', Bool.not_eq_false, List.all_eq_true] at hkey hval
  have hcolon : isHttpTchar (ch ':') = false := by decide
  have hlf : isHttpTchar (ch '\n') = false := by decide
  have hvlf : isValueByte (ch '\n') = false := by decide
  refine ⟨fun hmem => ?_, fun hmem => ?_, fun hmem => ?_⟩
  · rw [hkey _ hmem] at hcolon
    cases hcolon
  · rw [hkey _ hmem] at hlf
    cases hlf
  · rcases List.mem_cons.mp hmem with heq | hmem
    · exact absurd heq (by decide)
    · rw [hval _ hmem] at hvlf
      cases hvlf

lemma Laid.lines_le (h : Laid line rest fs c) : fs.length ≤ c.bytes.length := by
  have hcount : fs.length ≤ (fs.flatMap RawField.bytes).length := length_le_flatMap fs
  rw [h.bytes]
  simp only [List.length_append]
  omega

lemma Laid.applyOverride {o} (h : Laid line rest fs c) (ho : c.applyOverride o = some c') :
    Laid line rest (o.apply fs) c' ∧ c'.sendLen + c.headerEnd = c.sendLen + c'.headerEnd := by
  rcases ite_eq_iff.mp ho with ⟨-, ho⟩ | ⟨-, ho⟩
  · cases ho
  rcases ite_eq_iff.mp ho with ⟨-, ho⟩ | ⟨hvalid, ho⟩
  · cases ho
  rcases ite_eq_iff.mp ho with ⟨-, ho⟩ | ⟨-, ho⟩
  · cases ho
  rcases ite_eq_iff.mp ho with ⟨-, ho⟩ | ⟨-, ho⟩
  · cases ho
  have hclean := cleanLine_of_validate (not_not.mp hvalid)
  unfold HeaderOverride.apply
  by_cases hr : o.remove = true
  · rw [if_pos hr] at ho ⊢
    have hzero : RequestBuf.removeFields o.name c.bytes.length c 0 =
        RequestBuf.removeFields o.name c.bytes.length c (offset line []) := by
      cases hn : c.bytes.length with
      | zero => rfl
      | succ n => rw [RequestBuf.removeFields, RequestBuf.removeFields, h.findField_zero]
    obtain ⟨c₁, hc₁, hlaid, hmoved⟩ := @Laid.removeFields _ _ o.name [] _ _ h _ h.lines_le
    rw [hzero, hc₁] at ho
    cases ho
    exact ⟨hlaid, hmoved⟩
  rw [if_neg hr] at ho ⊢
  by_cases ha : o.append = true
  · rw [if_pos ha] at ho ⊢
    have hbytes : o.line.bytes = [o.line].flatMap RawField.bytes := by simp
    have hlaid : Laid line rest (fs ++ [] ++ []) c := by simpa using h
    rw [h.offset_end, hbytes] at ho
    have := hlaid.splice (by simpa using hclean) rfl ho
    simpa using this
  · rw [if_neg ha] at ho ⊢
    obtain ⟨⟨c₁, start⟩, hset, heq⟩ := Option.map_eq_some_iff.mp ho
    cases heq
    obtain ⟨as, bs, hlaid, rfl, hlines, hmoved⟩ := h.setLine hclean hset
    have hfuel : bs.length ≤ c₁.bytes.length := by
      have := hlaid.lines_le
      simp only [List.length_append] at this
      omega
    obtain ⟨hlaid', hmoved'⟩ := @Laid.dropRemaining _ _ o.name _ _ _ hlaid _ hfuel
    rw [hlines]
    exact ⟨hlaid', by dsimp only; omega⟩

end laid

/-! ## Whole heads -/

lemma countP_setLines (f : RawField) (fs : List RawField) : (setLines f fs).countP (SameName f.name ·) = 1 := by
  have hself : SameName f.name f := rfl
  have hnone : ∀ gs, (removeLines f.name gs).countP (SameName f.name ·) = 0 := by
    intro gs
    simp [removeLines]
  induction fs with
  | nil => simp [setLines, hself]
  | cons g gs ih =>
    rw [setLines]
    by_cases hg : SameName f.name g
    · rw [if_pos hg, List.countP_cons_of_pos (by simpa using hself), hnone]
    · rw [if_neg hg, List.countP_cons_of_neg (by simpa using hg), ih]

lemma laid_of_parse {b req h capacity sendLen} (hp : parse b = .complete req h) (hsend : h ≤ sendLen) :
    ∃ line fs, req.headers = fs.map RawField.header ∧ b.take h = headBytes req.method req.path req.version fs ∧
      Laid line (b.drop h) fs ⟨b, capacity, h, sendLen⟩ ∧
      ∀ fs', line ++ [ch '\r', ch '\n'] ++ fs'.flatMap RawField.bytes ++ [ch '\r', ch '\n'] =
        headBytes req.method req.path req.version fs' := by
  obtain ⟨fs, hg, hh⟩ := grammar_of_parse hp
  obtain ⟨rest, -, -, hend⟩ := parse_complete_iff.mp hp
  have hle : h ≤ b.length := by omega
  have hvbytes : req.version.bytes = req.version.bytes.take 8 ++ [ch '\r', ch '\n'] := by
    cases req.version <;> decide
  have hline : ∀ fs', (req.method.bytes ++ req.path ++ ch ' ' :: req.version.bytes.take 8) ++ [ch '\r', ch '\n'] ++
      fs'.flatMap RawField.bytes ++ [ch '\r', ch '\n'] = headBytes req.method req.path req.version fs' := by
    intro fs'
    rw [headBytes]
    conv_rhs => rw [hvbytes]
    simp
  refine ⟨req.method.bytes ++ req.path ++ ch ' ' :: req.version.bytes.take 8, fs, hh, hg.bytes, ⟨?_, ?_, ?_, ?_, hsend⟩,
    hline⟩
  · have huri : tableAt kUriTable (ch '\n') = false := by decide
    simp only [List.mem_append, List.mem_cons, not_or]
    refine ⟨⟨by cases req.method <;> decide, fun hmem => ?_⟩, by decide, by cases req.version <;> decide⟩
    rw [hg.target_uri _ hmem] at huri
    cases huri
  · intro f hf
    have hcolon : tableAt kTokenTable (ch ':') = false := by decide
    have hlf : tableAt kTokenTable (ch '\n') = false := by decide
    have hvlf : tableAt kHeaderValueTable (ch '\n') = false := by decide
    refine ⟨fun hmem => ?_, fun hmem => ?_, fun hmem => ?_⟩
    · rw [hg.name_token f hf _ hmem] at hcolon
      cases hcolon
    · rw [hg.name_token f hf _ hmem] at hlf
      cases hlf
    · rw [hg.raw_value f hf _ hmem] at hvlf
      cases hvlf
  · rw [hline, ← hg.bytes, List.take_append_drop]
  · have hlen := congrArg List.length (hg.bytes.trans (hline fs).symm)
    rw [List.length_take, Nat.min_eq_left hle] at hlen
    rw [hlen, @List.length_append _ _ [ch '\r', ch '\n']]
    rfl

/-- The overrides are applied exactly: the buffer holds the request line, the field lines as the overrides change them
one after the other, the empty line, and what followed the head; the end of the head, the length to forward and the
length of the buffer move together. A set leaves one line of its name, a remove leaves none. -/
theorem overrides_exact {b : Str} {req : ParsedRequest} {h capacity sendLen : Nat} {overflow : Bool}
    {overrides : List HeaderOverride} {c' : RequestBuf} (hp : parse b = .complete req h) (hsend : h ≤ sendLen)
    (ho : RequestBuf.applyRequestHeaderOverrides ⟨b, capacity, h, sendLen⟩ overflow overrides = some c') :
    ∃ fs, req.headers = fs.map RawField.header ∧ b.take h = headBytes req.method req.path req.version fs ∧
      (let fs' := overrides.foldl (fun fs o => o.apply fs) fs
      let head' := headBytes req.method req.path req.version fs'
      c'.bytes = head' ++ b.drop h ∧ c'.headerEnd = head'.length ∧ c'.sendLen + h = sendLen + c'.headerEnd ∧
        c'.bytes.length + h = b.length + c'.headerEnd) ∧
      ∀ pre o post, overrides = pre ++ o :: post →
        let mid := (pre ++ [o]).foldl (fun fs o => o.apply fs) fs
        (o.remove = false → o.append = false → mid.countP (SameName o.name ·) = 1) ∧
          (o.remove = true → mid.countP (SameName o.name ·) = 0) := by
  obtain ⟨line, fs, hh, hbytes, hlaid, hline⟩ := @laid_of_parse _ _ _ capacity _ hp hsend
  obtain ⟨rest, -, -, hend⟩ := parse_complete_iff.mp hp
  refine ⟨fs, hh, hbytes, ?_, ?_⟩
  · have hfold : overrides.foldlM RequestBuf.applyOverride ⟨b, capacity, h, sendLen⟩ = some c' := by
      unfold RequestBuf.applyRequestHeaderOverrides at ho
      split_ifs at ho with hnone hover
      · rw [hnone.1]
        exact ho
      · exact ho
    have hinv := Lib.foldlM_inv
      (fun done c => Laid line (b.drop h) (done.foldl (fun fs o => o.apply fs) fs) c ∧
        c.sendLen + h = sendLen + c.headerEnd)
      (fun {done c o c₁} hc hc₁ => by
        obtain ⟨hl, hm⟩ := hc
        obtain ⟨hl', hm'⟩ := hl.applyOverride hc₁
        rw [List.foldl_append]
        exact ⟨hl', by omega⟩)
      [] ⟨hlaid, rfl⟩ hfold
    rw [List.nil_append] at hinv
    obtain ⟨hl, hm⟩ := hinv
    have hb := hl.bytes
    have he : c'.headerEnd = (headBytes req.method req.path req.version
        (overrides.foldl (fun fs o => o.apply fs) fs)).length := by
      rw [hl.headerEnd, ← hline, @List.length_append _ _ [ch '\r', ch '\n']]
      rfl
    rw [hline] at hb
    refine ⟨hb, he, hm, ?_⟩
    rw [hb, he, List.length_append, List.length_drop]
    omega
  · rintro pre o post -
    simp only [List.foldl_append, List.foldl_cons, List.foldl_nil, HeaderOverride.apply]
    refine ⟨fun hr ha => ?_, fun hr => ?_⟩
    · rw [if_neg (by simp [hr]), if_neg (by simp [ha])]
      exact countP_setLines o.line _
    · rw [if_pos hr]
      simp [removeLines]

def spoofedRequest : Str :=
  lit ['G','E','T',' ','/',' ','H','T','T','P','/','1','.','1','\r','\n','X',':','1','\r','\n','Y',':',
    '2','\r','\n','x',':','3','\r','\n','\r','\n']

def pinOverride : HeaderOverride := { name := lit ['X'], value := lit ['9'] }

theorem spoofedRequest_overridden :
    ∃ req c', parse spoofedRequest = .complete req 33 ∧
      RequestBuf.applyRequestHeaderOverrides ⟨spoofedRequest, 64, 33, 33⟩ false [pinOverride] = some c' ∧
      c'.sendLen + 33 = 33 + c'.headerEnd := by
  have hend : (parse spoofedRequest).headEnd = some 33 := by decide
  have hsome : (RequestBuf.applyRequestHeaderOverrides ⟨spoofedRequest, 64, 33, 33⟩ false [pinOverride]).isSome = true := by
    decide
  obtain ⟨c', hc'⟩ := Option.isSome_iff_exists.mp hsome
  cases hp : parse spoofedRequest with
  | incomplete => rw [hp] at hend; cases hend
  | error => rw [hp] at hend; cases hend
  | complete req h =>
    rw [hp] at hend
    cases hend
    obtain ⟨fs, -, -, ⟨-, -, hmoved, -⟩, -⟩ := overrides_exact hp le_rfl hc'
    exact ⟨req, c', rfl, hc', hmoved⟩

end Rut.Conn
