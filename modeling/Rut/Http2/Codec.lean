import Rut.Http2.Frame

/-!
# Frame headers and settings on the wire

What `write_frame_header` and `write_settings_frame` write is read back by `parse_frame_header` and `parse_settings`.
The writer announces the values it cares to announce: a header list size is not among them, and a stream limit is only
if it is marked as present.
-/

namespace Rut.Http2

lemma FrameType.code_ofNat (n : Nat) : (FrameType.ofNat n).code = n := by
  unfold FrameType.ofNat
  split <;> rfl

lemma parseFrameHeader_octets {length id} (type flags : UInt8) (rest : Str) (hlength : length < 2 ^ 24)
    (hid : id < 2 ^ 31) : parseFrameHeader (FrameHeader.bytes ⟨length, .ofNat type.toNat, flags.toNat, id⟩ ++ rest) =
      some ⟨length, .ofNat type.toNat, flags.toNat, id⟩ := by
  have htype : type.toNat < 256 := type.toNat_lt
  have hflags : flags.toNat < 256 := flags.toNat_lt
  rw [parseFrameHeader_bytes]
  simp only [FrameType.code_ofNat, Nat.mod_eq_of_lt hlength, Nat.mod_eq_of_lt hid, Nat.mod_eq_of_lt htype,
    Nat.mod_eq_of_lt hflags]

/-! ## Entries -/

lemma length_settingBytes (id val : Nat) : (settingBytes id val).length = 6 := by
  rw [settingBytes, List.length_append, length_writeBe, length_writeBe]

lemma parseSettingsLoop_cons {s s' a b c d e f} {rest : Str}
    (h : applySetting s (readBe [a, b]) (readBe [c, d, e, f]) = .ok s') :
    parseSettingsLoop (a :: b :: c :: d :: e :: f :: rest) s = parseSettingsLoop rest s' := by
  rw [parseSettingsLoop, h]

lemma parseSettingsLoop_entry {s s' id val} (hid : id < 2 ^ 16) (hval : val < 2 ^ 32)
    (h : applySetting s id val = .ok s') (rest : Str) :
    parseSettingsLoop (settingBytes id val ++ rest) s = parseSettingsLoop rest s' := by
  have hread : readBe (writeBe 2 id) = id := (readBe_writeBe 2 id).trans (Nat.mod_eq_of_lt hid)
  have hreadVal : readBe (writeBe 4 val) = val := (readBe_writeBe 4 val).trans (Nat.mod_eq_of_lt hval)
  have hstep : applySetting s (readBe (writeBe 2 id)) (readBe (writeBe 4 val)) = .ok s' := by rw [hread, hreadVal, h]
  exact parseSettingsLoop_cons hstep

lemma parseSettingsLoop_optional {p} [Decidable p] {s s' id val} (hid : id < 2 ^ 16)
    (hval : val < 2 ^ 32) (hpos : p → applySetting s id val = .ok s') (hneg : ¬ p → s = s') (rest : Str) :
    parseSettingsLoop ((if p then settingBytes id val else []) ++ rest) s = parseSettingsLoop rest s' := by
  by_cases hp : p
  · rw [if_pos hp]
    exact parseSettingsLoop_entry hid hval (hpos hp) rest
  · rw [if_neg hp, hneg hp, List.nil_append]

/-! ## Settings -/

/-- The values `parse_settings` accepts, each in the width of its field. -/
structure Settings.Valid (s : Settings) : Prop where
  headerTableSize : s.headerTableSize < 2 ^ 32
  enablePush : s.enablePush ≤ 1
  enableConnectProtocol : s.enableConnectProtocol ≤ 1
  maxConcurrentStreams : s.maxConcurrentStreams < 2 ^ 32
  initialWindowSize : s.initialWindowSize ≤ kMaxWindowSize
  maxFrameSize : kDefaultMaxFrameSize ≤ s.maxFrameSize ∧ s.maxFrameSize ≤ kMaxAllowedFrameSize
  maxHeaderListSize : s.maxHeaderListSize < 2 ^ 32

def Settings.announced (s : Settings) : Settings :=
  { s with
    maxConcurrentStreams := if s.hasMaxConcurrentStreams then s.maxConcurrentStreams else 0
    maxHeaderListSize := 0
    hasMaxHeaderListSize := false }

lemma Settings.length_payload (s : Settings) : s.payload.length % 6 = 0 ∧ s.payload.length ≤ 36 := by
  have hentry (p : Prop) [Decidable p] (id val : Nat) : ∃ k ≤ 1, (if p then settingBytes id val else []).length = 6 * k := by
    by_cases hp : p
    · exact ⟨1, le_rfl, by rw [if_pos hp, length_settingBytes]⟩
    · exact ⟨0, by omega, by rw [if_neg hp, List.length_nil]⟩
  obtain ⟨a, ha, hconnect⟩ := hentry (s.enableConnectProtocol ≠ 0) 0x8 s.enableConnectProtocol
  obtain ⟨b, hb, htable⟩ := hentry (s.headerTableSize ≠ kDefaultHeaderTableSize) 0x1 s.headerTableSize
  obtain ⟨c, hc, hpush⟩ := hentry (s.enablePush ≠ 1) 0x2 s.enablePush
  obtain ⟨d, hd, hmax⟩ := hentry s.hasMaxConcurrentStreams 0x3 s.maxConcurrentStreams
  obtain ⟨e, he, hwindow⟩ := hentry (s.initialWindowSize ≠ kDefaultInitialWindowSize) 0x4 s.initialWindowSize
  obtain ⟨f, hf, hframe⟩ := hentry (s.maxFrameSize ≠ kDefaultMaxFrameSize) 0x5 s.maxFrameSize
  simp only [Settings.payload, List.length_append, hconnect, htable, hpush, hmax, hwindow, hframe]
  omega

lemma parseSettings_payload {s : Settings} (hs : s.Valid) : parseSettings s.payload {} = .ok s.announced := by
  have hpush := hs.enablePush
  have hconnect := hs.enableConnectProtocol
  have hwindow : s.initialWindowSize ≤ 2147483647 := hs.initialWindowSize
  have hframe : 16384 ≤ s.maxFrameSize ∧ s.maxFrameSize ≤ 16777215 := hs.maxFrameSize
  let s₁ : Settings := { enableConnectProtocol := s.enableConnectProtocol }
  let s₂ : Settings := { s₁ with headerTableSize := s.headerTableSize }
  let s₃ : Settings := { s₂ with enablePush := s.enablePush }
  let s₄ : Settings := { s₃ with
    maxConcurrentStreams := if s.hasMaxConcurrentStreams then s.maxConcurrentStreams else 0
    hasMaxConcurrentStreams := s.hasMaxConcurrentStreams }
  let s₅ : Settings := { s₄ with initialWindowSize := s.initialWindowSize }
  have h₁ : applySetting {} 0x8 s.enableConnectProtocol = .ok s₁ := if_neg (by simp; omega)
  have h₂ : applySetting s₁ 0x1 s.headerTableSize = .ok s₂ := rfl
  have h₃ : applySetting s₂ 0x2 s.enablePush = .ok s₃ := if_neg (by omega)
  have h₄ (h : s.hasMaxConcurrentStreams) : applySetting s₃ 0x3 s.maxConcurrentStreams = .ok s₄ := by
    simp only [applySetting, s₄, h, if_true]
  have h₅ : applySetting s₄ 0x4 s.initialWindowSize = .ok s₅ := if_neg (Nat.not_lt.mpr hwindow)
  have h₆ : applySetting s₅ 0x5 s.maxFrameSize = .ok s.announced :=
    if_neg (not_or.mpr ⟨Nat.not_lt.mpr hframe.1, Nat.not_lt.mpr hframe.2⟩)
  rw [parseSettings, if_neg (not_not.mpr s.length_payload.1), Settings.payload]
  simp only [List.append_assoc]
  rw [parseSettingsLoop_optional (by decide) (by omega) (fun _ => h₁) (fun h => by simp [s₁, not_not.mp h])]
  rw [parseSettingsLoop_optional (by decide) hs.headerTableSize (fun _ => h₂) (fun h => by simp [s₂, s₁, not_not.mp h])]
  rw [parseSettingsLoop_optional (by decide) (by omega) (fun _ => h₃) (fun h => by simp [s₃, s₂, s₁, not_not.mp h])]
  rw [parseSettingsLoop_optional (by decide) hs.maxConcurrentStreams h₄ (fun h => by simp [s₄, s₃, s₂, s₁, h])]
  rw [parseSettingsLoop_optional (by decide) (by omega) (fun _ => h₅)
    (fun h => by simp [s₅, s₄, s₃, s₂, s₁, not_not.mp h])]
  rw [← List.append_nil (ite (s.maxFrameSize ≠ kDefaultMaxFrameSize) _ _),
    parseSettingsLoop_optional (by decide) (by omega) (fun _ => h₆)
      (fun h => by simp [Settings.announced, s₅, s₄, s₃, s₂, s₁, not_not.mp h])]
  rfl

/-- The codec of frame headers and settings. A header with a length of 24 bits and a stream id of 31 bits is read as it
is written, in front of anything. The frame that announces valid settings is read as a SETTINGS frame whose payload,
applied to the default settings, gives every field but the header list size, and the stream limit if there is one. -/
theorem frame_settings_codec :
    (∀ (length id : Nat) (type flags : UInt8) (rest : Str), length < 2 ^ 24 → id < 2 ^ 31 →
      parseFrameHeader (FrameHeader.bytes ⟨length, .ofNat type.toNat, flags.toNat, id⟩ ++ rest) =
        some ⟨length, .ofNat type.toNat, flags.toNat, id⟩) ∧
    ∀ s : Settings, s.Valid →
      parseFrameHeader (OutFrame.settings s.payload).bytes = some ⟨s.payload.length, .settings, 0, 0⟩ ∧
      (OutFrame.settings s.payload).bytes.drop kFrameHeaderSize = s.payload ∧
      parseSettings s.payload {} = .ok s.announced := by
  refine ⟨fun length id type flags rest => parseFrameHeader_octets type flags rest, fun s hs => ⟨?_, ?_, ?_⟩⟩
  · have hlen := s.length_payload.2
    exact parseFrameHeader_octets 4 0 s.payload (by omega) (by decide)
  · rw [OutFrame.bytes]
    exact List.drop_left' (by simp [FrameHeader.bytes, length_writeBe, kFrameHeaderSize])
  · exact parseSettings_payload hs

/-- A PING header in front of its payload, and settings in which every announced field differs from its default. -/
theorem frame_settings_codec_announced :
    parseFrameHeader (FrameHeader.bytes ⟨8, .ping, 1, 0⟩ ++ [7]) = some ⟨8, .ping, 1, 0⟩ ∧
      parseSettings (Settings.payload ⟨0, 0, 1, 100, 1, 16777215, 0, true, false⟩) {} =
        .ok ⟨0, 0, 1, 100, 1, 16777215, 0, true, false⟩ := by
  obtain ⟨hheader, hsettings⟩ := frame_settings_codec
  refine ⟨hheader 8 0 6 1 [7] (by decide) (by decide), (hsettings _ ?_).2.2⟩
  constructor <;> decide

/-- A header list size is not announced. -/
theorem header_list_size_unannounced :
    ¬ ∀ s : Settings, s.Valid → parseSettings s.payload {} = .ok s := by
  intro h
  have hread := h { maxHeaderListSize := 8192, hasMaxHeaderListSize := true } (by constructor <;> decide)
  cases hread

end Rut.Http2
