import Rut.Ebpf.Verdict

/-!
# A verdict alone

What the verdict program does when nothing else writes the entry: it ends, and the budget of the entry decides what
becomes of the packet.
-/

namespace Rut.Ebpf

open Lib.Ebpf

structure Answers where
  cookie : BitVec 64
  found : Bool
  redirect : BitVec 64
  notify : BitVec 64
deriving DecidableEq

/-- The result of each helper; a lookup of a missing entry gives a null pointer. -/
def Answers.oracle (a : Answers) (helper : Int) : Val Region :=
  if helper = 46 then .num a.cookie
  else if helper = 1 then if a.found then .ptr .state 0 else .num 0
  else if helper = 72 then .num a.redirect
  else .num a.notify

def Reaches (a : Answers) (len : BitVec 32) (p : Place) (s : HandoffState) (calls : List Int) (p' : Place)
    (s' : HandoffState) (calls' : List Int) : Prop :=
  ∀ t, Toward ⟨0, 0, 0, 0⟩ len p t →
    ∃ t', Passes space verdictCode a.oracle t s calls t' s' calls' ∧ Toward ⟨0, 0, 0, 0⟩ len p' t'

section alone
variable {a : Answers} {len : BitVec 32} {p p' p'' : Place} {s s' s'' : HandoffState} {calls calls' calls'' : List Int}
  {c w : BitVec 64}

lemma Reaches.trans (h : Reaches a len p s calls p' s' calls') (h' : Reaches a len p' s' calls' p'' s'' calls'') :
    Reaches a len p s calls p'' s'' calls'' := by
  intro t ht
  obtain ⟨t', hpass, ht'⟩ := h t ht
  obtain ⟨t'', hpass', ht''⟩ := h' t' ht'
  exact ⟨t'', hpass.trans hpass', ht''⟩

lemma Reaches.move (hmove : p.move len s = some (p', s')) (calls : List Int) : Reaches a len p s calls p' s' calls := by
  rintro t ⟨t₀, hslides, hat⟩
  obtain ⟨t', hstep, ht'⟩ := At.move hat hmove
  rw [← verdictCode_eq] at hslides hstep
  exact ⟨t', (hslides.passes s calls).trans (passes_next hstep calls), ht'⟩

lemma Reaches.call {f} (hhelper : p.helper = some f) (hanswer : p.answer (a.oracle f) = some p')
    (s : HandoffState) (calls : List Int) : Reaches a len p s calls p' s (calls ++ [f]) := by
  rintro t ⟨t₀, hslides, hat⟩
  have hstep := At.call hat hhelper s
  rw [← verdictCode_eq] at hslides hstep
  exact ⟨_, (hslides.passes s calls).trans (passes_call hstep calls), At.answer hat hanswer⟩

lemma Reaches.run (h : Reaches a len .cookie s [] (.exit w) s' calls) :
    ∃ turns pc, run space verdictCode a.oracle turns (entry (.ptr (.skb len) 0)) s [] = some (w, pc, s', calls) ∧ pc < 168 := by
  obtain ⟨t, hpass, t', hslides, hat⟩ := h _ (entry_toward _ len)
  obtain ⟨hexit, hpc⟩ := At.exit hat s'
  rw [← verdictCode_eq] at hslides hexit
  obtain ⟨turns, hrun⟩ := (hpass.trans (hslides.passes s' calls)).exit hexit
  exact ⟨turns, t'.pc, hrun, hpc⟩

lemma marked_ne_zero : (1 : BitVec 32) ≠ 0 := by decide

structure Settles (s s' : HandoffState) (calls calls' : List Int) : Prop where
  control : s'.control = s.control
  tailBody : s'.tailBody = s.tailBody
  failed : s.failed ≠ 0 → s'.failed ≠ 0
  calls : calls' = calls ∨ calls' = calls ++ [130]

lemma reaches_ids (a : Answers) (len : BitVec 32) (w : BitVec 64) (s : HandoffState) (calls : List Int) :
    ∃ s' calls', Reaches a len (.ids w) s calls (.exit w) s' calls' ∧ Settles s s' calls calls' := by
  have hids : Reaches a len (.ids w) s calls (.notify w) s calls := .move rfl calls
  have hcall : Reaches a len (.notify w) s calls (if a.notify = 0 then .exit w else .unnotified w) s (calls ++ [130]) :=
    .call rfl rfl s calls
  by_cases hnotify : a.notify = 0
  · rw [if_pos hnotify] at hcall
    exact ⟨s, _, hids.trans hcall, rfl, rfl, id, .inr rfl⟩
  · rw [if_neg hnotify] at hcall
    exact ⟨{ s with failed := 1 }, _, (hids.trans hcall).trans (.move rfl _), rfl, rfl, fun _ => marked_ne_zero, .inr rfl⟩

lemma reaches_settled (a : Answers) (len : BitVec 32) (c w : BitVec 64) (s : HandoffState) (calls : List Int) :
    ∃ s' calls', Reaches a len (.settled c w) s calls (.exit w) s' calls' ∧ Settles s s' calls calls' := by
  have hsettled : Reaches a len (.settled c w) s calls _ s calls := .move rfl calls
  obtain ⟨sn, callsn, hnotified, hends⟩ := reaches_ids a len w s calls
  split_ifs at hsettled with hfailed hbudget
  · exact ⟨sn, callsn, hsettled.trans hnotified, hends⟩
  · exact ⟨s, calls, hsettled, rfl, rfl, id, .inl rfl⟩
  · have hleft : Reaches a len (.left w) s calls _ s calls := .move rfl calls
    split_ifs at hleft with hgone
    · exact ⟨sn, callsn, (hsettled.trans hleft).trans hnotified, hends⟩
    · exact ⟨s, calls, hsettled.trans hleft, rfl, rfl, id, .inl rfl⟩

lemma reaches_lookup (a : Answers) (len : BitVec 32) (s : HandoffState) :
    Reaches a len .cookie s [] (if a.found then .failed else .exit 0) s [46, 1] := by
  have hcookie : Reaches a len .cookie s [] .lookup s [46] := .call rfl rfl s []
  refine hcookie.trans ?_
  cases hfound : a.found with
  | true => exact .call rfl (by simp [Answers.oracle, Place.answer, hfound]) s [46]
  | false => exact .call rfl (by simp [Answers.oracle, Place.answer, hfound]) s [46]

lemma reaches_passing (a : Answers) (len : BitVec 32) {v} (hcontrol : s.control = c) (calls : List Int) :
    ∃ s' calls', Reaches a len (.passing 0 c v) s calls (.exit (if budgetBits v = 0 then 1 else 0)) s' calls' ∧
      s'.control = (if budgetBits v = 0 then v else c) ∧ s'.tailBody = s.tailBody ∧
      (budgetBits v ≠ 0 → s'.failed ≠ 0) ∧ (calls' = calls ∨ calls' = calls ++ [130]) := by
  rw [Place.passing]
  split_ifs with hzero
  · have hexchange : Reaches a len (.exchange 0 c v 0) s calls (.settled c 1) { s with control := v } calls := by
      apply Reaches.move
      rw [Place.move, if_pos hcontrol, if_pos rfl]
    obtain ⟨s', calls', hsettled, hends⟩ := reaches_settled a len c 1 { s with control := v } calls
    exact ⟨s', calls', hexchange.trans hsettled, hends.control, hends.tailBody, fun h => absurd hzero h, hends.calls⟩
  · have hoverflow : Reaches a len (.overflow c) s calls (.settled c 0) { s with failed := 1 } calls := .move rfl calls
    obtain ⟨s', calls', hsettled, hends⟩ := reaches_settled a len c 0 { s with failed := 1 } calls
    exact ⟨s', calls', hoverflow.trans hsettled, hends.control.trans hcontrol, hends.tailBody,
      fun _ => hends.failed marked_ne_zero, hends.calls⟩

lemma reaches_redirected (hbudget : budgetBits s.control ≠ 0) (hlen : len.toNat ≤ budget s.control) (calls : List Int) :
    ∃ s' calls', Reaches a len (.control 0) s calls (.exit a.redirect) s' calls' ∧
      s'.control = redirectedWord s.control len ∧ (calls' = calls ++ [72] ∨ calls' = calls ++ [72] ++ [130]) := by
  have hcontrol : Reaches a len (.control 0) s calls
      (.exchange 0 s.control (redirectedWord s.control len) (budgetBits s.control)) s calls := by
    apply Reaches.move
    rw [Place.move, Place.chosen, if_neg hbudget, if_pos hlen]
  have hexchange : Reaches a len (.exchange 0 s.control (redirectedWord s.control len) (budgetBits s.control)) s calls
      (.redirect s.control) { s with control := redirectedWord s.control len } calls := by
    apply Reaches.move
    rw [Place.move, if_pos rfl, if_neg hbudget]
  have hredirect := (hcontrol.trans hexchange).trans (.call rfl rfl _ calls)
  by_cases hdropped : a.redirect = 0
  · rw [if_pos hdropped] at hredirect
    have hfailed := hredirect.trans (.move rfl _)
    obtain ⟨s', calls', hsettled, hends⟩ := reaches_settled a len s.control 0
      { s with control := redirectedWord s.control len, failed := 1 } (calls ++ [72])
    rw [hdropped]
    exact ⟨s', calls', hfailed.trans hsettled, hends.control, hends.calls⟩
  · rw [if_neg hdropped] at hredirect
    obtain ⟨s', calls', hsettled, hends⟩ := reaches_settled a len s.control a.redirect
      { s with control := redirectedWord s.control len } (calls ++ [72])
    exact ⟨s', calls', hredirect.trans hsettled, hends.control, hends.calls⟩

end alone

/-- What a verdict on a packet of a length does, with the results of the helpers. -/
structure Judged (a : Answers) (s : HandoffState) (len : BitVec 32) (w : BitVec 64) (s' : HandoffState)
    (calls : List Int) : Prop where
  missing : ¬ a.found ∨ s.failed ≠ 0 → w = 0 ∧ s' = s
  redirected : a.found → s.failed = 0 → 0 < budget s.control → len.toNat ≤ budget s.control →
    s'.control.toNat + len.toNat * 2 ^ 32 = s.control.toNat ∧ calls.count 72 = 1 ∧ w = a.redirect
  crossing : a.found → s.failed = 0 → 0 < budget s.control → budget s.control < len.toNat →
    passedBytes s.control + len.toNat < 2 ^ 32 →
    s'.control.toNat = kHandoffOwned * 2 ^ 32 + (passedBytes s.control + len.toNat) ∧
      s'.tailBody.toNat = budget s.control ∧ w = 1 ∧ calls.count 72 = 0
  passed : a.found → s.failed = 0 → budget s.control = 0 → passedBytes s.control + len.toNat < 2 ^ 32 →
    s'.control.toNat = s.control.toNat + len.toNat ∧ w = 1 ∧ calls.count 72 = 0
  overflow : a.found → s.failed = 0 → budget s.control = 0 ∨ budget s.control < len.toNat →
    2 ^ 32 ≤ passedBytes s.control + len.toNat →
    s'.control = s.control ∧ s'.failed ≠ 0 ∧ w = 0 ∧ calls.count 72 = 0

lemma count_redirects {calls calls' : List Int} (h : calls' = calls ∨ calls' = calls ++ [130]) :
    calls'.count 72 = calls.count 72 := by
  obtain rfl | rfl := h
  · rfl
  · rw [List.count_append, List.count_singleton]
    rfl

section judged
variable {a : Answers} {s : HandoffState} {len : BitVec 32}

lemma judged_redirected (hbudget : budget s.control ≠ 0) (hlen : len.toNat ≤ budget s.control)
    (hfound : ¬ (¬ a.found ∨ s.failed ≠ 0)) :
    ∃ w s' calls, Reaches a len (.control 0) s [46, 1] (.exit w) s' calls ∧ Judged a s len w s' calls := by
  obtain ⟨s', calls, hreach, hword, hcalls⟩ :=
    reaches_redirected (a := a) (fun h => hbudget (budgetBits_eq_zero.1 h)) hlen [46, 1]
  have hcount : calls.count 72 = 1 := count_redirects hcalls
  refine ⟨a.redirect, s', calls, hreach, fun h => absurd h hfound, fun _ _ _ _ => ⟨?_, hcount, rfl⟩, ?_, ?_, ?_⟩
  · rw [hword]
    exact redirectedWord_toNat hlen
  · intro _ _ _ hlt
    omega
  · intro _ _ hzero
    exact absurd hzero hbudget
  · intro _ _ hor
    omega

lemma judged_passed (hbudget : budget s.control = 0) (hfound : ¬ (¬ a.found ∨ s.failed ≠ 0)) :
    ∃ w s' calls, Reaches a len (.control 0) s [46, 1] (.exit w) s' calls ∧ Judged a s len w s' calls := by
  have hcontrol : Reaches a len (.control 0) s [46, 1] (.passing 0 s.control (passedWord s.control len)) s [46, 1] := by
    apply Reaches.move
    rw [Place.move, Place.chosen, if_pos (budgetBits_eq_zero.2 hbudget)]
  obtain ⟨s', calls, hpassing, hword, -, hmarked, hcalls⟩ := reaches_passing a len (s := s) rfl [46, 1]
  have hcount : calls.count 72 = 0 := count_redirects hcalls
  obtain ⟨hfits, hvalue⟩ := passedWord_spec len hbudget
  refine ⟨_, s', calls, hcontrol.trans hpassing, fun h => absurd h hfound, ?_, ?_, ?_, ?_⟩
  · intro _ _ hpos
    omega
  · intro _ _ hpos
    omega
  · intro _ _ _ hlt
    rw [if_pos (hfits.2 hlt)] at hword ⊢
    rw [hword]
    exact ⟨(hvalue hlt).1, rfl, hcount⟩
  · intro _ _ _ hover
    have hne : budgetBits (passedWord s.control len) ≠ 0 := fun h => absurd (hfits.1 h) (Nat.not_lt.2 hover)
    rw [if_neg hne] at hword ⊢
    exact ⟨hword, hmarked hne, rfl, hcount⟩

lemma judged_crossing (hbudget : budget s.control ≠ 0) (hlen : ¬ len.toNat ≤ budget s.control)
    (hfound : ¬ (¬ a.found ∨ s.failed ≠ 0)) :
    ∃ w s' calls, Reaches a len (.control 0) s [46, 1] (.exit w) s' calls ∧ Judged a s len w s' calls := by
  have hcontrol : Reaches a len (.control 0) s [46, 1] (.tail 0 s.control) s [46, 1] := by
    apply Reaches.move
    rw [Place.move, Place.chosen, if_neg fun h => hbudget (budgetBits_eq_zero.1 h), if_neg hlen]
  obtain ⟨s', calls, hpassing, hword, htail, hmarked, hcalls⟩ := reaches_passing a len
    (s := { s with tailBody := (budgetBits s.control).setWidth 32 }) rfl [46, 1]
  have hcount : calls.count 72 = 0 := count_redirects hcalls
  obtain ⟨hfits, -⟩ := crossingWord_spec s.control len
  refine ⟨_, s', calls, (hcontrol.trans (.move rfl _)).trans hpassing, fun h => absurd h hfound, ?_, ?_, ?_, ?_⟩
  · intro _ _ _ hle
    exact absurd hle hlen
  · intro _ _ _ _ hlt
    rw [if_pos (hfits.2 hlt)] at hword ⊢
    rw [hword, crossingWord_toNat, htail, tailBody_toNat]
    exact ⟨Nat.add_assoc _ _ _, rfl, rfl, hcount⟩
  · intro _ _ hzero
    exact absurd hzero hbudget
  · intro _ _ _ hover
    have hne : budgetBits (crossingWord s.control len) ≠ 0 := fun h => absurd (hfits.1 h) (Nat.not_lt.2 hover)
    rw [if_neg hne] at hword ⊢
    exact ⟨hword, hmarked hne, rfl, hcount⟩

end judged

lemma reaches_judged (a : Answers) (s : HandoffState) (len : BitVec 32) :
    ∃ w s' calls, Reaches a len .cookie s [] (.exit w) s' calls ∧ Judged a s len w s' calls := by
  have hlookup := reaches_lookup a len s
  cases hfound : a.found with
  | false =>
    rw [hfound] at hlookup
    have hmissing : ¬ a.found := by rw [hfound]; exact Bool.false_ne_true
    exact ⟨0, s, _, hlookup, fun _ => ⟨rfl, rfl⟩, fun h => absurd h hmissing, fun h => absurd h hmissing,
      fun h => absurd h hmissing, fun h => absurd h hmissing⟩
  | true =>
    rw [hfound, if_pos rfl] at hlookup
    by_cases hfailed : s.failed = 0
    · have hmove : Reaches a len .failed s [46, 1] (.control 0) s [46, 1] := by
        apply Reaches.move
        rw [Place.move, if_pos hfailed]
      have hlive : ¬ (¬ a.found ∨ s.failed ≠ 0) := by simp [hfound, hfailed]
      have hjudged : ∃ w s' calls, Reaches a len (.control 0) s [46, 1] (.exit w) s' calls ∧ Judged a s len w s' calls := by
        by_cases hbudget : budget s.control = 0
        · exact judged_passed hbudget hlive
        · by_cases hlen : len.toNat ≤ budget s.control
          · exact judged_redirected hbudget hlen hlive
          · exact judged_crossing hbudget hlen hlive
      obtain ⟨w, s', calls, hreach, hj⟩ := hjudged
      exact ⟨w, s', calls, (hlookup.trans hmove).trans hreach, hj⟩
    · have hmove : Reaches a len .failed s [46, 1] (.exit 0) s [46, 1] := by
        apply Reaches.move
        rw [Place.move, if_neg hfailed]
      exact ⟨0, s, _, hlookup.trans hmove, fun _ => ⟨rfl, rfl⟩, fun _ h => absurd h hfailed, fun _ h => absurd h hfailed,
        fun _ h => absurd h hfailed, fun _ h => absurd h hfailed⟩

/-- The verdict program, run alone on a packet of any length with any entry, ends at an exit inside its code, without a
fault, and treats the packet as the budget of the entry asks for. -/
theorem verdict_judges (a : Answers) (s : HandoffState) (len : BitVec 32) :
    ∃ turns w pc s' calls,
      run space verdictCode a.oracle turns (entry (.ptr (.skb len) 0)) s [] = some (w, pc, s', calls) ∧
      pc < emitPacketHandoffBytecode.verdict.length ∧ Judged a s len w s' calls := by
  obtain ⟨w, s', calls, hreach, hjudged⟩ := reaches_judged a s len
  obtain ⟨turns, pc, hrun, hpc⟩ := hreach.run
  have hlength : emitPacketHandoffBytecode.verdict.length = 168 := by
    have h := congrArg List.length verdictCode_eq
    rw [verdictCode, List.length_map] at h
    rw [h]
    decide +kernel
  exact ⟨turns, w, pc, s', calls, hrun, hlength ▸ hpc, hjudged⟩


end Rut.Ebpf
