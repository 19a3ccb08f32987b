import Rut.Lib.Loop
import Rut.Ws.Extensions

/-!
# The negotiation of compression round-trips

What is selected from an offer is written in one text, and the parser for responses reads that text back. The parser of
parameters passes over a parameter as it is written, whatever comes behind it.
-/

set_option linter.all false
namespace Rut.Ws

open Http

/-! ## What is selected -/

/-- Windows are those zlib knows, and the largest one unless they are given. -/
structure WsDeflateAgreement.InBounds (a : WsDeflateAgreement) : Prop where
  server : 8 ≤ a.server_window ∧ a.server_window ≤ 15
  client : 8 ≤ a.client_window ∧ a.client_window ≤ 15
  server_default : a.server_window_present = false → a.server_window = 15
  client_default : a.client_window_present = false → a.client_window = 15

lemma inBounds_default : ({} : WsDeflateAgreement).InBounds := ⟨by decide, by decide, fun _ => rfl, fun _ => rfl⟩

lemma window_bounds {v} (h : window v = true) : 8 ≤ v.number ∧ v.number ≤ 15 := by
  simp only [window, Bool.and_eq_true, decide_eq_true_iff] at h
  exact ⟨h.1.2, h.2⟩

lemma given_bounds {v n} (h : 8 ≤ n ∧ n ≤ 15) :
    8 ≤ (if window v then v.number else n) ∧ (if window v then v.number else n) ≤ 15 := by
  split
  next hw => exact window_bounds hw
  next => exact h

lemma Candidate.apply_inBounds {response} {c : Candidate} (h : c.agreement.InBounds) (name : Str)
    (v : ParameterValue) : (c.apply response name v).1.agreement.InBounds := by
  obtain ⟨hserver, hclient, hserver', hclient'⟩ := h
  unfold Candidate.apply
  split
  · exact ⟨hserver, hclient, hserver', hclient'⟩
  split
  · exact ⟨hserver, hclient, hserver', hclient'⟩
  split
  · exact ⟨given_bounds hserver, hclient, Bool.noConfusion, hclient'⟩
  split
  · exact ⟨hserver, given_bounds hclient, hserver', Bool.noConfusion⟩
  · exact ⟨hserver, hclient, hserver', hclient'⟩

lemma parameters_inBounds {response s r c d} (hc : c.agreement.InBounds)
    (h : parameters response s c = some (d, r)) : d.agreement.InBounds := by
  fun_induction parameters response s c with
  | case1 =>
    cases h
    exact hc
  | case2 => cases h
  | case3 rest c name v r' heq ih => exact ih (Candidate.apply_inBounds hc name v) h
  | case4 =>
    cases h
    exact hc

structure Offered (a : WsDeflateAgreement) : Prop where
  inBounds : a.InBounds
  takeover : a.enabled = true → a.server_no_context_takeover = true

lemma Selection.take_offer (st : Selection) (c : Candidate) : st.take false c =
      if c.supported && !st.selected.enabled then
        some ⟨{ c.agreement with enabled := true, server_no_context_takeover := true }, st.selections⟩
      else some st := rfl

lemma Selection.take_offered {st st' : Selection} {c} (hst : Offered st.selected)
    (hc : c.agreement.InBounds) (h : st.take false c = some st') : Offered st'.selected := by
  rw [Selection.take_offer] at h
  split_ifs at h
  · cases h
    exact ⟨⟨hc.server, hc.client, hc.server_default, hc.client_default⟩, fun _ => rfl⟩
  · cases h
    exact hst

lemma extensions_offered {s st st'} (hst : Offered st.selected)
    (h : extensions false s st = some st') : Offered st'.selected := by
  fun_induction extensions false s st with
  | case1 =>
    cases h
    exact hst
  | case2 => cases h
  | case3 => cases h
  | case4 => cases h
  | case5 s st _ _ _ c st₁ htake hpars =>
    cases h
    exact Selection.take_offered hst (parameters_inBounds inBounds_default hpars) htake
  | case6 => cases h
  | case7 s st _ _ _ c st₁ htake r _ hpars _ ih =>
    exact ih (Selection.take_offered hst (parameters_inBounds inBounds_default hpars) htake) h
  | case8 => cases h

lemma ws_select_offered {headers a} (h : ws_select_deflate_offer headers = some a) : Offered a := by
  unfold ws_select_deflate_offer parse at h
  split_ifs at h
  obtain ⟨st, hst, rfl⟩ := Option.map_eq_some_iff.mp h
  refine Lib.foldlM_inv (fun _ st => Offered st.selected) ?_ [] ⟨inBounds_default, Bool.noConfusion⟩ hst
  intro done st f st' hst hf
  unfold selectField at hf
  split_ifs at hf
  · exact extensions_offered hst hf
  · cases hf
    exact hst

/-! ## Reading parameters back -/

def Behind (s : Str) : Prop := ∀ b, s.head? = some b → b = ch ';'

structure Token (name : Str) : Prop where
  ne : name ≠ []
  tchar : ∀ b ∈ name, isHttpTchar b = true

lemma ows_of_tchar {b} (h : isHttpTchar b = true) : isOws b = false := by
  revert h
  revert b
  apply forall_uint8
  decide +kernel

lemma Behind.takeWhile {s} (h : Behind s) : s.takeWhile isHttpTchar = [] ∧ s.dropWhile isHttpTchar = s := by
  cases s with
  | nil => exact ⟨rfl, rfl⟩
  | cons b s =>
    obtain rfl := h b rfl
    exact ⟨rfl, rfl⟩

lemma Behind.whitespace {s} (h : Behind s) : whitespace s = s := by
  cases s with
  | nil => rfl
  | cons b s =>
    obtain rfl := h b rfl
    rfl

lemma Token.whitespace {name} (h : Token name) (s : Str) : whitespace (name ++ s) = name ++ s := by
  cases hname : name with
  | nil => exact absurd hname h.ne
  | cons b name' =>
    have hb : isOws b = false := ows_of_tchar (h.tchar b (by rw [hname]; exact List.mem_cons_self))
    exact List.dropWhile_cons_of_neg (by rw [hb]; exact Bool.false_ne_true)

lemma nextParameter_flag {name rest} (hname : Token name) (hrest : Behind rest) :
    nextParameter (ch ' ' :: (name ++ rest)) = some (name, {}, rest) := by
  have hspace : Ws.whitespace (ch ' ' :: (name ++ rest)) = name ++ rest := hname.whitespace rest
  have htake : (name ++ rest).takeWhile isHttpTchar = name := by
    rw [List.takeWhile_append_of_pos hname.tchar, hrest.takeWhile.1, List.append_nil]
  have hdrop : (name ++ rest).dropWhile isHttpTchar = rest := by
    rw [List.dropWhile_append_of_pos hname.tchar, hrest.takeWhile.2]
  unfold nextParameter
  dsimp only
  rw [hspace, htake, hdrop, if_neg hname.ne, hrest.whitespace]
  cases rest with
  | nil => rfl
  | cons b rest =>
    obtain rfl := hrest b rfl
    rfl

def windowValue (n : Nat) : ParameterValue :=
  { present := true, number := n, decimal := true, digits := (windowDigits n).length, leading_zero := false }

lemma parameterOctets_append {ds} (hds : ∀ b ∈ ds, isHttpTchar b = true) (s : Str) (v : ParameterValue) :
    parameterOctets false (ds ++ s) v = parameterOctets false s (ds.foldl ParameterValue.octet v) := by
  induction ds generalizing v with
  | nil => rfl
  | cons b ds ih =>
    have hb : isHttpTchar b = true := hds b List.mem_cons_self
    rw [List.cons_append, List.foldl_cons, ← ih fun b hb => hds b (List.mem_cons_of_mem _ hb)]
    rw [parameterOctets.eq_def]
    simp [hb]

lemma parameterOctets_behind {rest} (h : Behind rest) (v : ParameterValue) :
    parameterOctets false rest v = some (true, v, rest) := by
  cases rest with
  | nil => rfl
  | cons b rest =>
    obtain rfl := h b rfl
    rw [parameterOctets.eq_def]
    rfl

lemma windowDigits_read {n} (hn : 8 ≤ n ∧ n ≤ 15) :
    (∀ b ∈ windowDigits n, isHttpTchar b = true) ∧ (windowDigits n).head? ≠ some (ch '\x22') ∧
      (windowDigits n).foldl ParameterValue.octet { present := true } = windowValue n ∧
      window (windowValue n) = true ∧ (windowValue n).digits ≠ 0 := by
  obtain ⟨hlow, hhigh⟩ := hn
  rw [← List.all_iff_forall_prop]
  interval_cases n <;> decide +kernel

lemma parameter_value_window {n} (hn : 8 ≤ n ∧ n ≤ 15) {rest} (h : Behind rest) :
    parameter_value (windowDigits n ++ rest) = some (windowValue n, rest) := by
  obtain ⟨htchar, hquote, hread, -, hdigits⟩ := windowDigits_read hn
  have hoctets := parameterOctets_append htchar rest { present := true }
  rw [hread, parameterOctets_behind h] at hoctets
  cases hw : windowDigits n with
  | nil =>
    rw [hw] at hread
    exact absurd (congrArg ParameterValue.digits hread.symm) hdigits
  | cons b ds =>
    have hb : (b == ch '\x22') = false := by
      rw [hw] at hquote
      exact beq_eq_false_iff_ne.mpr fun heq => hquote (congrArg some heq)
    rw [hw] at hoctets
    unfold parameter_value
    dsimp only [List.cons_append]
    rw [hb, if_neg Bool.false_ne_true, ← List.cons_append, hoctets]
    dsimp only
    rw [Bool.true_and, if_pos (bne_iff_ne.mpr hdigits)]

lemma nextParameter_window {name rest} (hname : Token name) {n} (hn : 8 ≤ n ∧ n ≤ 15) (hrest : Behind rest) :
    nextParameter (ch ' ' :: (name ++ ch '=' :: (windowDigits n ++ rest))) = some (name, windowValue n, rest) := by
  have hspace : Ws.whitespace (ch ' ' :: (name ++ ch '=' :: (windowDigits n ++ rest))) =
      name ++ ch '=' :: (windowDigits n ++ rest) := hname.whitespace _
  have hstop : ¬isHttpTchar (ch '=') = true := by
    exact Bool.false_ne_true
  have htake : (name ++ ch '=' :: (windowDigits n ++ rest)).takeWhile isHttpTchar = name := by
    rw [List.takeWhile_append_of_pos hname.tchar, List.takeWhile_cons_of_neg hstop, List.append_nil]
  have hdrop : (name ++ ch '=' :: (windowDigits n ++ rest)).dropWhile isHttpTchar =
      ch '=' :: (windowDigits n ++ rest) := by
    rw [List.dropWhile_append_of_pos hname.tchar, List.dropWhile_cons_of_neg hstop]
  have hdigits : Ws.whitespace (windowDigits n ++ rest) = windowDigits n ++ rest := by
    obtain ⟨htchar, -, hread, -, hne⟩ := windowDigits_read hn
    refine Token.whitespace ⟨fun hnil => ?_, htchar⟩ rest
    rw [hnil] at hread
    exact hne (congrArg ParameterValue.digits hread.symm)
  have hskip : Ws.whitespace (ch '=' :: (windowDigits n ++ rest)) = ch '=' :: (windowDigits n ++ rest) := rfl
  unfold nextParameter
  dsimp only
  rw [hspace, htake, hdrop, if_neg hname.ne, hskip]
  dsimp only
  rw [if_pos rfl, hdigits, parameter_value_window hn hrest, Option.map_some, hrest.whitespace]

def flagText (name : Str) (given : Bool) : Str := if given then lit [';',' '] ++ name else []

def windowText (name : Str) (given : Bool) (n : Nat) : Str :=
  if given then lit [';',' '] ++ name ++ [ch '='] ++ windowDigits n else []

lemma behind_flagText {name rest given} (h : Behind rest) : Behind (flagText name given ++ rest) := by
  cases given with
  | false => exact h
  | true =>
    intro b hb
    cases hb
    rfl

lemma behind_windowText {name rest given n} (h : Behind rest) : Behind (windowText name given n ++ rest) := by
  cases given with
  | false => exact h
  | true =>
    intro b hb
    cases hb
    rfl

lemma parameters_next {response s name r v c} (h : nextParameter s = some (name, v, r)) :
    parameters response (ch ';' :: s) c = parameters response r (c.parameter response name v) := by
  rw [parameters]
  simp only [if_pos]
  split
  next heq => rw [h] at heq; cases heq
  next heq =>
    rw [h] at heq
    cases heq
    rfl

lemma parameters_flag {response given name rest c} (hname : Token name) (hrest : Behind rest) :
    parameters response (flagText name given ++ rest) c =
      parameters response rest (if given then c.parameter response name {} else c) := by
  cases given with
  | false => rfl
  | true => exact parameters_next (nextParameter_flag hname hrest)

lemma parameters_window {response given name rest c} (hname : Token name) {n}
    (hn : 8 ≤ n ∧ n ≤ 15) (hrest : Behind rest) : parameters response (windowText name given n ++ rest) c =
      parameters response rest (if given then c.parameter response name (windowValue n) else c) := by
  cases given with
  | false => rfl
  | true =>
    have htext : windowText name true n ++ rest = ch ';' :: ch ' ' :: (name ++ ch '=' :: (windowDigits n ++ rest)) := by
      simp [windowText, lit]
    rw [htext]
    exact parameters_next (nextParameter_window hname hn hrest)

/-! ## The text of an agreement -/

def deflateText (a : WsDeflateAgreement) : Str :=
  permessageDeflate ++ (flagText serverNoContextTakeover a.server_no_context_takeover ++
    (flagText clientNoContextTakeover a.client_no_context_takeover ++
      (windowText serverMaxWindowBits a.server_window_present a.server_window ++
        (windowText clientMaxWindowBits a.client_window_present a.client_window ++ []))))

lemma deflateTexts_flatten (a : WsDeflateAgreement) : (deflateTexts a).flatten = deflateText a := by
  unfold deflateTexts deflateText flagText windowText
  cases a.server_no_context_takeover <;> cases a.client_no_context_takeover <;> cases a.server_window_present <;>
    cases a.client_window_present <;> simp

lemma appendText_foldlM {capacity} {texts : List Str} {out : Str} (h : (out ++ texts.flatten).length ≤ capacity) :
    texts.foldlM (appendText capacity) out = some (out ++ texts.flatten) := by
  induction texts generalizing out with
  | nil => rw [List.flatten_nil, List.append_nil]; rfl
  | cons text texts ih =>
    rw [List.flatten_cons, ← List.append_assoc] at h ⊢
    have hlen := h
    simp only [List.length_append] at hlen
    rw [List.foldlM_cons, appendText, if_neg (by omega)]
    exact ih h

lemma ws_format_eq {a} (henabled : a.enabled = true) (ha : a.InBounds) {capacity}
    (hcap : (deflateText a).length ≤ capacity) : ws_format_deflate_agreement a capacity = deflateText a := by
  have hwindows : ¬(!a.enabled || a.server_window < 8 || 15 < a.server_window || a.client_window < 8 ||
      15 < a.client_window) = true := by
    obtain ⟨hserver, hclient, -, -⟩ := ha
    simp only [henabled, Bool.not_true, Bool.false_or, Bool.or_eq_true, decide_eq_true_iff]
    omega
  unfold ws_format_deflate_agreement
  rw [if_neg hwindows, appendText_foldlM (by rw [List.nil_append, deflateTexts_flatten]; exact hcap),
    List.nil_append, deflateTexts_flatten]
  rfl

lemma deflate_tokens :
    (∀ b ∈ permessageDeflate ++ serverNoContextTakeover ++ clientNoContextTakeover ++ serverMaxWindowBits ++
      clientMaxWindowBits, isHttpTchar b = true) ∧
    permessageDeflate ≠ [] ∧ serverNoContextTakeover ≠ [] ∧ clientNoContextTakeover ≠ [] ∧ serverMaxWindowBits ≠ [] ∧
      clientMaxWindowBits ≠ [] :=
  ⟨List.all_eq_true.mp (by decide +kernel), by decide +kernel⟩

section effects

variable {response : Bool} (c : Candidate)

lemma parameter_server_flag : c.parameter response serverNoContextTakeover {} =
      ⟨{ c.agreement with server_no_context_takeover := true }, c.supported && true && c.seen &&& 1 == 0, c.seen ||| 1⟩ :=
  rfl

lemma parameter_client_flag : c.parameter response clientNoContextTakeover {} =
      ⟨{ c.agreement with client_no_context_takeover := true }, c.supported && true && c.seen &&& 2 == 0, c.seen ||| 2⟩ :=
  rfl

lemma parameter_server_window {n} (h : window (windowValue n) = true) :
    c.parameter response serverMaxWindowBits (windowValue n) =
      ⟨{ c.agreement with server_window_present := true, server_window := n }, c.supported && true && c.seen &&& 4 == 0,
        c.seen ||| 4⟩ := by
  have happly : c.apply response serverMaxWindowBits (windowValue n) =
      ({ c with
          agreement :=
            { c.agreement with
              server_window_present := true
              server_window := if window (windowValue n) then n else c.agreement.server_window }
          supported := c.supported && window (windowValue n) }, 4) := rfl
  unfold Candidate.parameter
  rw [happly, h]
  rfl

lemma parameter_client_window {n} (h : window (windowValue n) = true) :
    c.parameter response clientMaxWindowBits (windowValue n) =
      ⟨{ c.agreement with client_window_present := true, client_window := n }, c.supported && true && c.seen &&& 8 == 0,
        c.seen ||| 8⟩ := by
  have happly : c.apply response clientMaxWindowBits (windowValue n) =
      ({ c with
          agreement :=
            { c.agreement with
              client_window_present := true
              client_window := if window (windowValue n) then n else c.agreement.client_window }
          supported := c.supported && (false || window (windowValue n)) }, 8) := by
    unfold Candidate.apply
    simp [show clientMaxWindowBits ≠ serverNoContextTakeover by decide,
      show clientMaxWindowBits ≠ clientNoContextTakeover by decide, show clientMaxWindowBits ≠ serverMaxWindowBits by decide,
      windowValue]
  unfold Candidate.parameter
  rw [happly, h]
  rfl

end effects

lemma parameters_deflateText {response a} (ha : a.InBounds) :
    ∃ seen, parameters response ((deflateText a).drop permessageDeflate.length) { supported := true } =
      some (⟨{ a with enabled := false }, true, seen⟩, []) := by
  obtain ⟨htchar, -, hne₁, hne₂, hne₃, hne₄⟩ := deflate_tokens
  simp only [List.mem_append, or_imp, forall_and] at htchar
  obtain ⟨⟨⟨⟨-, h₁⟩, h₂⟩, h₃⟩, h₄⟩ := htchar
  have hnil : Behind [] := fun b hb => by cases hb
  have hwindow : ∀ {n : Nat}, 8 ≤ n ∧ n ≤ 15 → window (windowValue n) = true := fun hn => (windowDigits_read hn).2.2.2.1
  unfold deflateText
  rw [List.drop_left, parameters_flag ⟨hne₁, h₁⟩ (behind_flagText (behind_windowText (behind_windowText hnil))),
    parameters_flag ⟨hne₂, h₂⟩ (behind_windowText (behind_windowText hnil)),
    parameters_window ⟨hne₃, h₃⟩ ha.server (behind_windowText hnil), parameters_window ⟨hne₄, h₄⟩ ha.client hnil,
    parameters]
  obtain ⟨hserver, hclient, hserver', hclient'⟩ := ha
  obtain ⟨enabled, server, client, serverGiven, clientGiven, serverWindow, clientWindow⟩ := a
  simp only [parameter_server_flag, parameter_client_flag, parameter_server_window _ (hwindow hserver),
    parameter_client_window _ (hwindow hclient)]
  -- a window that is not given is the default
  cases serverGiven with
  | false =>
    obtain rfl : serverWindow = 15 := hserver' rfl
    cases clientGiven with
    | false =>
      obtain rfl : clientWindow = 15 := hclient' rfl
      cases server <;> cases client <;> simp
    | true => cases server <;> cases client <;> simp
  | true =>
    cases clientGiven with
    | false =>
      obtain rfl : clientWindow = 15 := hclient' rfl
      cases server <;> cases client <;> simp
    | true => cases server <;> cases client <;> simp

lemma extensions_last {response} {s : Str} {c} (st : Selection) (hname : s.takeWhile isHttpTchar ≠ [])
    (hpars : parameters response (whitespace (s.dropWhile isHttpTchar))
      { supported := s.takeWhile isHttpTchar == permessageDeflate } = some (c, [])) :
    extensions response s st = st.take response c := by
  have hne : s ≠ [] := by
    rintro rfl
    exact hname rfl
  rw [extensions, if_neg hne]
  rw [if_neg hname]
  split
  next hnone =>
    rw [hpars] at hnone
    cases hnone
  next d r hsome =>
    rw [hpars] at hsome
    cases hsome
    cases st.take response c <;> rfl

lemma extensions_deflateText {response a} (ha : a.InBounds) (st : Selection) :
    ∃ seen, extensions response (whitespace (deflateText a)) st =
      st.take response ⟨{ a with enabled := false }, true, seen⟩ := by
  obtain ⟨htchar, hne, -⟩ := deflate_tokens
  simp only [List.mem_append, or_imp, forall_and] at htchar
  have htoken : Token permessageDeflate := ⟨hne, htchar.1.1.1.1⟩
  obtain ⟨seen, hpars⟩ : ∃ seen, parameters response _ _ = some (⟨_, _, seen⟩, _) := parameters_deflateText ha
  refine ⟨seen, ?_⟩
  have hbehind : Behind ((deflateText a).drop permessageDeflate.length) := by
    exact behind_flagText (behind_flagText (behind_windowText (behind_windowText fun b hb => by cases hb)))
  have hsplit : permessageDeflate ++ (deflateText a).drop permessageDeflate.length = deflateText a := by
    unfold deflateText
    rw [List.drop_left]
  generalize (deflateText a).drop permessageDeflate.length = rest at hpars hbehind hsplit
  have htake : (permessageDeflate ++ rest).takeWhile isHttpTchar = permessageDeflate := by
    rw [List.takeWhile_append_of_pos htoken.tchar, hbehind.takeWhile.1, List.append_nil]
  have hdrop : (permessageDeflate ++ rest).dropWhile isHttpTchar = rest := by
    rw [List.dropWhile_append_of_pos htoken.tchar, hbehind.takeWhile.2]
  rw [← hsplit, htoken.whitespace]
  refine extensions_last st (by rw [htake]; exact hne) ?_
  rw [htake, hdrop, hbehind.whitespace, beq_self_eq_true]
  exact hpars

lemma parse_single {response name value st}
    (hname : httpHeaderNameEqCi name extensionsName = true) (h : extensions response (whitespace value) {} = some st) :
    parse [⟨name, value⟩] response = some st.selected := by
  have hfew : ¬kMaxHeaders < [(⟨name, value⟩ : Field)].length := Nat.not_lt.mpr (show 1 ≤ kMaxHeaders by decide)
  unfold parse
  rw [if_neg hfew, List.foldlM_cons, selectField, if_pos hname, h]
  rfl

lemma ws_accept_deflateText {a} (henabled : a.enabled = true) (ha : a.InBounds) {name}
    (hname : httpHeaderNameEqCi name extensionsName = true) :
    ws_accept_deflate_response [⟨name, deflateText a⟩] = some a := by
  obtain ⟨seen, heq⟩ : ∃ seen, extensions true _ _ = Selection.take _ _ ⟨_, _, seen⟩ := extensions_deflateText ha {}
  have hagreed : ({ a with enabled := true } : WsDeflateAgreement) = a := by rw [← henabled]
  rw [← hagreed]
  exact parse_single hname heq

def extensionsField : Str :=
  lit ['S','e','c','-','W','e','b','S','o','c','k','e','t','-','E','x','t','e','n','s','i','o','n','s']

/-- The negotiation round-trips: what is selected from an offer is written as a text, if there is room for it, and a
response with that text is accepted with the same agreement. -/
theorem deflate_round_trip {headers : List Field} {a : WsDeflateAgreement}
    (hselect : ws_select_deflate_offer headers = some a) (henabled : a.enabled = true) {capacity : Nat}
    (hcap : (deflateText a).length ≤ capacity) :
    ws_format_deflate_agreement a capacity ≠ [] ∧
      ws_accept_deflate_response [⟨extensionsField, ws_format_deflate_agreement a capacity⟩] = some a := by
  have ha := (ws_select_offered hselect).inBounds
  rw [ws_format_eq henabled ha hcap]
  refine ⟨?_, ws_accept_deflateText henabled ha (by decide)⟩
  exact List.append_ne_nil_of_left_ne_nil deflate_tokens.2.1 _

def openOffer : Str := permessageDeflate ++ (flagText clientMaxWindowBits true ++ [])

lemma openOffer_selected : ws_select_deflate_offer [⟨extensionsField, openOffer⟩] =
      some { enabled := true, server_no_context_takeover := true, client_window_present := true } := by
  obtain ⟨htchar, hne, -, -, -, hne'⟩ := deflate_tokens
  simp only [List.mem_append, or_imp, forall_and] at htchar
  have htoken : Token permessageDeflate := ⟨hne, htchar.1.1.1.1⟩
  have hnil : Behind [] := fun b hb => by cases hb
  have hbehind : Behind (flagText clientMaxWindowBits true ++ []) := behind_flagText hnil
  have htake : openOffer.takeWhile isHttpTchar = permessageDeflate := by
    rw [openOffer, List.takeWhile_append_of_pos htoken.tchar, hbehind.takeWhile.1, List.append_nil]
  have hdrop : openOffer.dropWhile isHttpTchar = flagText clientMaxWindowBits true ++ [] := by
    rw [openOffer, List.dropWhile_append_of_pos htoken.tchar, hbehind.takeWhile.2]
  have hpars : parameters false (whitespace (openOffer.dropWhile isHttpTchar))
      { supported := openOffer.takeWhile isHttpTchar == permessageDeflate } =
        some (⟨{ client_window_present := true }, true, 8⟩, []) := by
    rw [htake, hdrop, hbehind.whitespace, parameters_flag ⟨hne', htchar.2⟩ hnil, parameters]
    rfl
  have hspace : whitespace openOffer = openOffer := htoken.whitespace _
  have hext : extensions false openOffer {} = _ := extensions_last {} (by rw [htake]; exact hne) hpars
  exact parse_single (by decide) ((congrArg (extensions false · {}) hspace).trans hext)

theorem openOffer_round_trip :
    ws_accept_deflate_response [⟨extensionsField, ws_format_deflate_agreement
        { enabled := true, server_no_context_takeover := true, client_window_present := true } 128⟩] =
      some { enabled := true, server_no_context_takeover := true, client_window_present := true } :=
  (deflate_round_trip openOffer_selected rfl (by decide)).2

end Rut.Ws
