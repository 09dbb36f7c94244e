import StaticHostAgent.Contracts.OperatorProtocol

/-!
# One wire form for each message

Hexadecimal digests and UUID texts are read back from what they are written as, and
conversely; from these and the fixed fields of the library follow the two codec
theorems, `header_codec` and `acknowledgement_codec`.
-/

set_option autoImplicit false

namespace StaticHostAgent.Contracts.OperatorProtocol

open Library

/-! ## Hexadecimal digits -/

theorem hexValue_hexDigit {d : Nat} (hd : d < 16) : hexValue (hexDigit d) = some d := by
  have hall : ∀ d < 16, hexValue (hexDigit d) = some d := by decide
  exact hall d hd

theorem hexDigit_hexValue {c : Char} {d : Nat} (hc : c ∈ hexDigits) (hd : hexValue c = some d) :
    hexDigit d = c := by
  have hall : ∀ c ∈ hexDigits, (hexValue c).map hexDigit = some c := by decide
  have hmap := hall c hc
  rw [hd] at hmap
  exact Option.some.inj hmap

theorem idxOf?_lt {c : Char} {d : Nat} {digits : List Char} (h : digits.idxOf? c = some d) :
    d < digits.length := by
  obtain ⟨hlt, _⟩ := List.findIdx?_eq_some_iff_getElem.mp h
  exact hlt

theorem hexValue_lt {c : Char} {d : Nat} (h : hexValue c = some d) : d < 16 := by
  unfold hexValue at h
  split at h
  · rename_i value hvalue
    obtain rfl := Option.some.inj h
    exact idxOf?_lt hvalue
  · exact idxOf?_lt h

theorem hexText_cons (byte : UInt8) (raw : Bytes) :
    hexText (byte :: raw) =
      hexDigit (byte.toNat / 16) :: hexDigit (byte.toNat % 16) :: hexText raw := rfl

theorem fromHex_hexText (raw : Bytes) : fromHex (hexText raw) = some raw := by
  induction raw with
  | nil => rfl
  | cons byte raw ih =>
      have hbyte := byte.toNat_lt
      have hwhole : 16 * (byte.toNat / 16) + byte.toNat % 16 = byte.toNat := by omega
      rw [hexText_cons, fromHex, hexValue_hexDigit (by omega), hexValue_hexDigit (by omega), ih]
      simp only [Option.bind_eq_bind, Option.bind_some, hwhole, UInt8.ofNat_toNat]

/-- What `bytes.fromhex` reads from two digits and a rest. -/
theorem fromHex_cons_eq_some {high low : Char} {rest : List Char} {raw : Bytes} :
    fromHex (high :: low :: rest) = some raw ↔
      ∃ h l bytes, hexValue high = some h ∧ hexValue low = some l ∧ fromHex rest = some bytes ∧
        raw = UInt8.ofNat (16 * h + l) :: bytes := by
  rw [fromHex]
  simp only [Option.bind_eq_bind, Option.bind_eq_some_iff, Option.some.injEq, exists_and_left]
  grind

theorem hexText_fromHex {text : List Char} :
    ∀ {raw : Bytes}, (∀ c ∈ text, c ∈ hexDigits) → fromHex text = some raw →
      hexText raw = text := by
  induction text using fromHex.induct with
  | case1 =>
      intro raw _ h
      obtain rfl := Option.some.inj h
      rfl
  | case2 c =>
      intro raw _ h
      nomatch h
  | case3 high low rest ih =>
      intro raw hdigits h
      obtain ⟨hv, lv, bytes, hhigh, hlow, hrest, rfl⟩ := fromHex_cons_eq_some.mp h
      have hvLt := hexValue_lt hhigh
      have lvLt := hexValue_lt hlow
      have hbyte : (UInt8.ofNat (16 * hv + lv)).toNat = 16 * hv + lv :=
        UInt8.toNat_ofNat_of_lt (by show _ < 256; omega)
      have hquotient : (16 * hv + lv) / 16 = hv := by omega
      have hremainder : (16 * hv + lv) % 16 = lv := by omega
      rw [hexText_cons, hbyte, hquotient, hremainder,
        hexDigit_hexValue (hdigits high (by simp)) hhigh,
        hexDigit_hexValue (hdigits low (by simp)) hlow,
        ih (fun c hmem => hdigits c (by simp [hmem])) hrest]

theorem fromHex_length {text : List Char} :
    ∀ {raw : Bytes}, fromHex text = some raw → text.length = 2 * raw.length := by
  induction text using fromHex.induct with
  | case1 =>
      intro raw h
      obtain rfl := Option.some.inj h
      rfl
  | case2 c =>
      intro raw h
      nomatch h
  | case3 high low rest ih =>
      intro raw h
      obtain ⟨_, _, bytes, _, _, hrest, rfl⟩ := fromHex_cons_eq_some.mp h
      rw [List.length_cons, List.length_cons, List.length_cons, ih hrest]
      omega

/-! ## UUID texts -/

theorem mapM_hexValue {digits : List Nat} (hdigits : ∀ d ∈ digits, d < 16) :
    (digits.map hexDigit).mapM hexValue = some digits := by
  induction digits with
  | nil => rfl
  | cons d digits ih =>
      rw [List.map_cons, List.mapM_cons, hexValue_hexDigit (hdigits d (by simp)),
        ih (fun e hmem => hdigits e (by simp [hmem]))]
      rfl

theorem lt_of_mapM_hexValue {text : List Char} :
    ∀ {digits : List Nat}, text.mapM hexValue = some digits →
      digits.length = text.length ∧ ∀ d ∈ digits, d < 16 := by
  induction text with
  | nil =>
      intro digits h
      obtain rfl := Option.some.inj h
      exact ⟨rfl, nofun⟩
  | cons c text ih =>
      intro digits h
      rw [List.mapM_cons] at h
      simp only [Option.bind_eq_bind, Option.bind_eq_some_iff, Option.pure_def,
        Option.some.injEq] at h
      obtain ⟨d, hd, rest, hrest, rfl⟩ := h
      obtain ⟨hlength, hlt⟩ := ih hrest
      refine ⟨by rw [List.length_cons, List.length_cons, hlength], ?_⟩
      intro e hmem
      rcases List.mem_cons.mp hmem with rfl | hmem
      · exact hexValue_lt hd
      · exact hlt e hmem

/-- Taking the separators out of an intercalation leaves the pieces. -/
theorem filter_intercalate {pieces : List (List Char)}
    (hpieces : ∀ piece ∈ pieces, ∀ c ∈ piece, c ≠ '-') :
    (['-'].intercalate pieces).filter (fun c => c != '-') = pieces.flatten := by
  have hkept : ∀ piece ∈ pieces, piece.filter (fun c => c != '-') = piece := by
    intro piece hpiece
    rw [List.filter_eq_self]
    intro c hc
    exact bne_iff_ne.mpr (hpieces piece hpiece c hc)
  clear hpieces
  induction pieces with
  | nil => rfl
  | cons piece rest ih =>
      have hrest := ih (fun p hp => hkept p (by simp [hp]))
      cases rest with
      | nil => simpa using hkept piece (by simp)
      | cons next rest =>
          have hsplit : ['-'].intercalate (piece :: next :: rest) =
              piece ++ '-' :: ['-'].intercalate (next :: rest) := by
            simp [List.intercalate]
          rw [hsplit, List.filter_append, hkept piece (by simp),
            List.filter_cons_of_neg (by simp), hrest]
          rfl

theorem uuidNumber_lt {text : List Char} {number : Nat} (h : uuidNumber text = some number) :
    number < 16 ^ 32 := by
  unfold uuidNumber at h
  simp only at h
  split at h
  · rename_i hlength
    obtain ⟨digits, hdigits, rfl⟩ := Option.map_eq_some_iff.mp h
    obtain ⟨hsame, hlt⟩ := lt_of_mapM_hexValue hdigits
    exact ofFixedDigits_lt (by omega) (hsame.trans hlength) hlt
  · nomatch h

theorem uuidNumber_uuidText {number : Nat} (hnumber : number < 16 ^ 32) :
    uuidNumber (uuidText number) = some number := by
  have hlength := fixedDigits_length (by omega) hnumber
  have hlt : ∀ d ∈ fixedDigits 16 32 number, d < 16 :=
    fun d hmem => lt_of_mem_fixedDigits (by omega) hmem
  have htextLength : (hexNumber number).length = [8, 4, 4, 4, 12].sum := by
    rw [hexNumber, List.length_map, hlength]
    rfl
  have hflat := flatten_splitFields [8, 4, 4, 4, 12] _ htextLength
  have hnodash : ∀ c ∈ hexDigits, c ≠ '-' := by decide
  have hfilter : (uuidText number).filter (fun c => c != '-') = hexNumber number := by
    rw [uuidText, filter_intercalate, hflat]
    intro piece hpiece c hc
    have hmem : c ∈ hexNumber number := by
      rw [← hflat]
      exact List.mem_flatten.mpr ⟨piece, hpiece, hc⟩
    exact hnodash c (hexNumber_mem hmem)
  unfold uuidNumber
  simp only [hfilter, hexNumber, mapM_hexValue hlt]
  rw [if_pos (by rw [List.length_map, hlength]), Option.map_some,
    ofFixedDigits_fixedDigits (by omega) hnumber]

/-! ## Packed numbers -/

theorem packNumber_eq_ok {width : Nat} {n : Int} {raw : Bytes} :
    packNumber width n = .ok raw ↔
      0 ≤ n ∧ n < 256 ^ width ∧ raw = packBytes width n.toNat := by
  unfold packNumber
  split
  · rename_i h
    simp only [Except.ok.injEq]
    exact ⟨fun heq => ⟨h.1, h.2, heq.symm⟩, fun heq => heq.2.2.symm⟩
  · rename_i h
    constructor
    · intro heq
      nomatch heq
    · rintro ⟨hlow, hhigh, _⟩
      exact absurd ⟨hlow, hhigh⟩ h

theorem packNumber_length {width : Nat} {n : Int} {raw : Bytes} (h : packNumber width n = .ok raw) :
    raw.length = width ∧ (unpackBytes raw : Int) = n := by
  obtain ⟨hlow, hhigh, rfl⟩ := packNumber_eq_ok.mp h
  have hlt : n.toNat < 256 ^ width := by
    have hcast : ((256 ^ width : Nat) : Int) = 256 ^ width := by push_cast; rfl
    omega
  rw [packBytes_length hlt, unpackBytes_packBytes hlt]
  exact ⟨rfl, Int.toNat_of_nonneg hlow⟩

theorem packNumber_unpackBytes {width : Nat} {raw : Bytes} (hlength : raw.length = width) :
    packNumber width (unpackBytes raw) = .ok raw := by
  rw [packNumber_eq_ok]
  have hlt := unpackBytes_lt hlength
  refine ⟨by omega, ?_, ?_⟩
  · exact_mod_cast hlt
  · rw [Int.toNat_natCast, packBytes_unpackBytes hlength]

/-! ## Acknowledgements -/

theorem validateUuid7_ok {value accepted : String} (h : validateUuid7 value = .ok accepted) :
    accepted = value ∧ ∃ number, uuidNumber value.toList = some number ∧
      uuidVersion number = some 7 ∧ uuidText number = value.toList := by
  unfold validateUuid7 at h
  obtain ⟨_, _, h⟩ := bind_eq_ok.mp h
  split at h
  · nomatch h
  · rename_i number hnumber
    obtain ⟨_, hcanonical, h⟩ := bind_eq_ok.mp h
    have hform := of_decide_eq_true (require_eq_ok.mp hcanonical)
    exact ⟨(pure_eq_ok.mp h).symm, number, hnumber, hform⟩

/-- The parts of a receipt that `encode` wrote: the texts write the numbers. -/
theorem encode_ok {receipt : ExportAcknowledgement} {raw : Bytes}
    (h : receipt.encode = .ok raw) :
    ∃ job digest size, uuidNumber receipt.jobId.toList = some job ∧ job < 256 ^ 16 ∧
      uuidText job = receipt.jobId.toList ∧ fromHex receipt.sha256.toList = some digest ∧
      digest.length = 32 ∧ hexText digest = receipt.sha256.toList ∧
      packNumber 8 receipt.size = .ok size ∧
      raw = [packBytes 16 job, digest, size].flatten := by
  unfold ExportAcknowledgement.encode at h
  obtain ⟨jobId, hjobId, h⟩ := bind_eq_ok.mp h
  obtain ⟨rfl, number, hnumber, _, htext⟩ := validateUuid7_ok hjobId
  obtain ⟨_, hform, h⟩ := bind_eq_ok.mp h
  obtain ⟨hlength, hdigits, _⟩ := of_decide_eq_true (require_eq_ok.mp hform)
  split at h
  · rename_i job digest hjob hdigest
    obtain ⟨size, hsize, h⟩ := bind_eq_ok.mp h
    have hraw := pure_eq_ok.mp h
    obtain rfl : number = job := Option.some.inj (hnumber.symm.trans hjob)
    have hdigestLength : digest.length = 32 := by
      have := fromHex_length hdigest
      rw [hlength] at this
      simp only [sha256HexLength] at this
      omega
    have hbound := uuidNumber_lt hnumber
    refine ⟨number, digest, size, hjob, by omega, htext, hdigest, hdigestLength,
      hexText_fromHex hdigits hdigest, hsize, ?_⟩
    rw [← hraw]
    simp
  · nomatch h
  · nomatch h

/-- The fields of an acknowledgement of the right length. -/
theorem acknowledgement_fields {raw : Bytes} (hlength : raw.length = acknowledgementSize) :
    ∃ job digest size, splitFields acknowledgementWidths raw = [job, digest, size] ∧
      raw = [job, digest, size].flatten ∧ job.length = 16 ∧ digest.length = 32 ∧
      size.length = 8 := by
  have hflat := flatten_splitFields acknowledgementWidths raw hlength
  have hwidths := length_splitFields acknowledgementWidths raw hlength
  refine ⟨_, _, _, rfl, hflat.symm, ?_⟩
  simpa [acknowledgementWidths, splitFields] using hwidths

theorem decode_of_encode {receipt : ExportAcknowledgement} {raw : Bytes}
    (h : receipt.encode = .ok raw) : ExportAcknowledgement.decode raw = .ok receipt := by
  obtain ⟨job, digest, size, hjob, hjobBound, hjobText, hdigest, hdigestLength, hdigestText, hsize,
    hraw⟩ := encode_ok h
  obtain ⟨hsizeLength, hsizeValue⟩ := packNumber_length hsize
  have hfields : [packBytes 16 job, digest, size].map List.length = acknowledgementWidths := by
    simp [packBytes_length hjobBound, hdigestLength, hsizeLength, acknowledgementWidths]
  have hlength : raw.length = acknowledgementSize := by
    rw [hraw, List.length_flatten, hfields]
    rfl
  have hsplit : splitFields acknowledgementWidths raw = [packBytes 16 job, digest, size] := by
    rw [hraw, ← hfields, splitFields_flatten]
  have hreceipt : (⟨String.ofList (uuidText (unpackBytes (packBytes 16 job))),
      String.ofList (hexText digest), unpackBytes size⟩ : ExportAcknowledgement) = receipt := by
    rw [unpackBytes_packBytes hjobBound, hjobText, hdigestText, hsizeValue, String.ofList_toList,
      String.ofList_toList]
  unfold ExportAcknowledgement.decode
  rw [hsplit]
  simp only [hlength, decide_true, require_true, ok_bind, hreceipt, h]
  rfl

theorem encode_of_decode {receipt : ExportAcknowledgement} {raw : Bytes}
    (h : ExportAcknowledgement.decode raw = .ok receipt) : receipt.encode = .ok raw := by
  unfold ExportAcknowledgement.decode at h
  obtain ⟨_, hlength, h⟩ := bind_eq_ok.mp h
  obtain ⟨job, digest, size, hsplit, hraw, hjob, hdigest, hsize⟩ :=
    acknowledgement_fields (of_decide_eq_true (require_eq_ok.mp hlength))
  rw [hsplit] at h
  obtain ⟨written, hencode, h⟩ := bind_eq_ok.mp h
  obtain rfl := pure_eq_ok.mp h
  obtain ⟨number, digest', size', hnumber, _, _, hdigest', _, _, hsize', hwritten⟩ :=
    encode_ok hencode
  have hbound : unpackBytes job < 16 ^ 32 := by
    have := unpackBytes_lt hjob
    omega
  rw [String.toList_ofList, uuidNumber_uuidText hbound] at hnumber
  rw [String.toList_ofList, fromHex_hexText] at hdigest'
  rw [packNumber_unpackBytes hsize] at hsize'
  obtain rfl := Option.some.inj hnumber
  obtain rfl := Option.some.inj hdigest'
  obtain rfl := Except.ok.inj hsize'
  rw [hencode, hwritten, hraw, packBytes_unpackBytes hjob]

/-- Encoding and decoding of acknowledgements are one relation. -/
theorem acknowledgement_codec (receipt : ExportAcknowledgement) (raw : Bytes) :
    receipt.encode = .ok raw ↔ ExportAcknowledgement.decode raw = .ok receipt :=
  ⟨decode_of_encode, encode_of_decode⟩

/-! ## Headers -/

theorem FrameKind.ofValue_eq_ok {n : Nat} {kind : FrameKind} :
    FrameKind.ofValue n = .ok kind ↔ n = kind.value := by
  unfold FrameKind.ofValue
  split <;> cases kind <;> simp_all [FrameKind.value]

/-- The bounds of a header, by its kind. -/
def LengthsValid (header : FrameHeader) : Prop :=
  match header.kind with
  | .acknowledgement => header.documentLength = acknowledgementSize ∧ header.payloadLength = none
  | .request => 0 < header.documentLength ∧ header.documentLength ≤ maxRawRequestBytes ∧
      ∀ n ∈ header.payloadLength, 0 < n ∧ n ≤ maxImportArtifactBytes
  | .response => 0 < header.documentLength ∧ header.documentLength ≤ maxResponseBytes ∧
      ∀ n ∈ header.payloadLength, 0 < n ∧ n ≤ maxExportBytes

theorem validateLengths_eq_ok {header : FrameHeader} :
    validateLengths header = .ok () ↔ LengthsValid header := by
  obtain ⟨kind, documentLength, payloadLength⟩ := header
  cases kind with
  | acknowledgement => simp [validateLengths, LengthsValid, require_eq_ok]
  | request =>
      cases payloadLength with
      | none => simp [validateLengths, LengthsValid, bind_eq_ok, require_eq_ok]
      | some n => simp [validateLengths, LengthsValid, bind_eq_ok, require_eq_ok]
  | response =>
      cases payloadLength with
      | none => simp [validateLengths, LengthsValid, bind_eq_ok, require_eq_ok]
      | some n => simp [validateLengths, LengthsValid, bind_eq_ok, require_eq_ok]

/-- Valid lengths are positive and fit their fields. -/
theorem LengthsValid.fits {header : FrameHeader} (valid : LengthsValid header) :
    (0 < header.documentLength ∧ header.documentLength < 256 ^ 4) ∧
      ∀ n ∈ header.payloadLength, 0 < n ∧ n < 256 ^ 8 := by
  obtain ⟨kind, documentLength, payloadLength⟩ := header
  cases kind with
  | acknowledgement =>
      simp only [LengthsValid, acknowledgementSize] at valid
      obtain ⟨hdocument, rfl⟩ := valid
      exact ⟨by simp only; omega, nofun⟩
  | request =>
      simp only [LengthsValid, maxRawRequestBytes, maxImportArtifactBytes] at valid
      refine ⟨by simp only; omega, ?_⟩
      intro n hn
      have hbound := valid.2.2 n hn
      omega
  | response =>
      simp only [LengthsValid, maxResponseBytes, maxCanonicalBytes, maxExportBytes] at valid
      refine ⟨by simp only; omega, ?_⟩
      intro n hn
      have hbound := valid.2.2 n hn
      omega

def headerFlags (header : FrameHeader) : Nat :=
  if header.payloadLength.isSome then artifactPresent else 0

/-- The wire form of a header. -/
def headerFields (header : FrameHeader) : List Bytes :=
  [magic, packBytes 1 version, packBytes 1 header.kind.value, packBytes 2 (headerFlags header),
    packBytes 4 header.documentLength.toNat, packBytes 8 (header.payloadLength.getD 0).toNat]

theorem kind_value_lt (kind : FrameKind) : kind.value < 256 ^ 1 := by
  cases kind <;> decide

theorem headerFlags_lt (header : FrameHeader) : headerFlags header < 256 ^ 2 := by
  unfold headerFlags
  split <;> decide

theorem payload_range {header : FrameHeader} (valid : LengthsValid header) :
    0 ≤ header.payloadLength.getD 0 ∧ header.payloadLength.getD 0 < 256 ^ 8 := by
  cases hpayload : header.payloadLength with
  | none => exact ⟨by decide, by decide⟩
  | some n =>
      have hrange := valid.fits.2 n hpayload
      exact ⟨by simp only [Option.getD_some]; omega, hrange.2⟩

theorem headerFields_widths {header : FrameHeader} (valid : LengthsValid header) :
    (headerFields header).map List.length = headerWidths := by
  have hdocument : header.documentLength.toNat < 256 ^ 4 := by
    have := valid.fits.1
    omega
  have hpayload : (header.payloadLength.getD 0).toNat < 256 ^ 8 := by
    have := payload_range valid
    omega
  have hversion : version < 256 ^ 1 := by decide
  have hmagic : magic.length = 8 := by decide
  simp only [headerFields, List.map_cons, List.map_nil, packBytes_length hversion,
    packBytes_length (kind_value_lt header.kind), packBytes_length (headerFlags_lt header),
    packBytes_length hdocument, packBytes_length hpayload, hmagic, headerWidths]

/-- The encoder writes the wire form of exactly the headers with valid lengths. -/
theorem encodeHeader_eq_ok {header : FrameHeader} {raw : Bytes} :
    encodeHeader header = .ok raw ↔
      LengthsValid header ∧ raw = (headerFields header).flatten := by
  have hpack : ∀ {width n : Nat}, n < 256 ^ width →
      packNumber width n = .ok (packBytes width n) := by
    intro width n hn
    rw [packNumber_eq_ok, Int.toNat_natCast]
    exact ⟨by omega, by exact_mod_cast hn, rfl⟩
  unfold encodeHeader
  rw [bind_eq_ok]
  constructor
  · rintro ⟨_, hvalid, h⟩
    have valid := validateLengths_eq_ok.mp hvalid
    refine ⟨valid, ?_⟩
    obtain ⟨_, hversion, h⟩ := bind_eq_ok.mp h
    obtain ⟨_, hkind, h⟩ := bind_eq_ok.mp h
    obtain ⟨_, hflags, h⟩ := bind_eq_ok.mp h
    obtain ⟨_, hdocument, h⟩ := bind_eq_ok.mp h
    obtain ⟨_, hpayload, h⟩ := bind_eq_ok.mp h
    rw [← pure_eq_ok.mp h, (packNumber_eq_ok.mp hversion).2.2, (packNumber_eq_ok.mp hkind).2.2,
      (packNumber_eq_ok.mp hflags).2.2, (packNumber_eq_ok.mp hdocument).2.2,
      (packNumber_eq_ok.mp hpayload).2.2]
    rfl
  · rintro ⟨valid, rfl⟩
    refine ⟨(), validateLengths_eq_ok.mpr valid, ?_⟩
    have hdocument : packNumber 4 header.documentLength =
        .ok (packBytes 4 header.documentLength.toNat) :=
      packNumber_eq_ok.mpr ⟨by have := valid.fits.1; omega, valid.fits.1.2, rfl⟩
    have hpayload : packNumber 8 (header.payloadLength.getD 0) =
        .ok (packBytes 8 (header.payloadLength.getD 0).toNat) :=
      packNumber_eq_ok.mpr ⟨(payload_range valid).1, (payload_range valid).2, rfl⟩
    have hflags := hpack (headerFlags_lt header)
    unfold headerFlags at hflags
    simp only [hpack (show version < 256 ^ 1 by decide), hpack (kind_value_lt header.kind), hflags,
      hdocument, hpayload, ok_bind]
    rfl

/-- Flags without unknown bits. -/
theorem flags_of_known {flags : Nat} (hbound : flags < 2 ^ 16)
    (hknown : flags &&& unknownFlags = 0) : flags = 0 ∨ flags = artifactPresent := by
  have hhalf := congrArg (· / 2) hknown
  simp only [Nat.and_div_two] at hhalf
  have hmask : unknownFlags / 2 = 2 ^ 15 - 1 := by decide
  rw [hmask, Nat.and_two_pow_sub_one_eq_mod] at hhalf
  simp only [artifactPresent]
  omega

theorem decode_headerFields {header : FrameHeader} {allowed : List FrameKind}
    (valid : LengthsValid header) (hallowed : header.kind ∈ allowed) :
    decodeHeader (headerFields header).flatten allowed = .ok header := by
  have hwidths := headerFields_widths valid
  have hlength : (headerFields header).flatten.length = headerSize := by
    rw [List.length_flatten, hwidths]
    rfl
  have hsplit : splitFields headerWidths (headerFields header).flatten = headerFields header := by
    rw [← hwidths, splitFields_flatten]
  have hversion : unpackBytes (packBytes 1 version) = version :=
    unpackBytes_packBytes (by decide)
  have hkind : unpackBytes (packBytes 1 header.kind.value) = header.kind.value :=
    unpackBytes_packBytes (kind_value_lt header.kind)
  have hflags : unpackBytes (packBytes 2 (headerFlags header)) = headerFlags header :=
    unpackBytes_packBytes (headerFlags_lt header)
  have hdocument : (unpackBytes (packBytes 4 header.documentLength.toNat) : Int) =
      header.documentLength := by
    have hrange := valid.fits.1
    rw [unpackBytes_packBytes (by omega)]
    omega
  have hpayload : unpackBytes (packBytes 8 (header.payloadLength.getD 0).toNat) =
      (header.payloadLength.getD 0).toNat := by
    have hrange := payload_range valid
    exact unpackBytes_packBytes (by omega)
  have hofValue := FrameKind.ofValue_eq_ok.mpr (rfl : header.kind.value = header.kind.value)
  have hlengths := validateLengths_eq_ok.mpr valid
  have hknown : headerFlags header &&& unknownFlags = 0 := by
    unfold headerFlags
    split <;> decide
  obtain ⟨kind, documentLength, payloadLength⟩ := header
  unfold decodeHeader
  rw [hsplit]
  simp only [headerFields] at hlength ⊢
  simp only [hlength, decide_true, require_true, ok_bind, hversion, hkind, hflags, hdocument,
    hpayload, hofValue, hallowed, hknown, and_self]
  cases payloadLength with
  | none =>
      simp only [headerFlags, Option.isSome_none, Option.getD_none, Int.toNat_zero] at hlengths ⊢
      simp [artifactPresent, require_true, ok_bind, hlengths, pure, Except.pure]
  | some n =>
      have hrange := valid.fits.2 n rfl
      have hcast : ((n.toNat : Nat) : Int) = n := by omega
      have hpresent : n.toNat ≠ 0 := by omega
      simp [headerFlags, artifactPresent, hpresent, hcast, require_true, ok_bind, hlengths, pure,
        Except.pure]

/-- The decoder accepts nothing but wire forms of allowed headers with valid lengths. -/
theorem decodeHeader_ok {raw : Bytes} {allowed : List FrameKind} {header : FrameHeader}
    (h : decodeHeader raw allowed = .ok header) :
    header.kind ∈ allowed ∧ LengthsValid header ∧ raw = (headerFields header).flatten := by
  unfold decodeHeader at h
  obtain ⟨_, hlength, h⟩ := bind_eq_ok.mp h
  have hlength := of_decide_eq_true (require_eq_ok.mp hlength)
  have hflat := flatten_splitFields headerWidths raw hlength
  have hwidths := length_splitFields headerWidths raw hlength
  split at h
  · rename_i magicField versionField kindField flagsField documentField payloadField hsplit
    rw [hsplit] at hflat hwidths
    simp only [List.map_cons, List.map_nil, headerWidths, List.cons.injEq] at hwidths
    obtain ⟨_, hversionLength, hkindLength, hflagsLength, hdocumentLength, hpayloadLength, _⟩ :=
      hwidths
    obtain ⟨_, hmagic, h⟩ := bind_eq_ok.mp h
    obtain ⟨hmagic, hversion⟩ := of_decide_eq_true (require_eq_ok.mp hmagic)
    obtain ⟨kind, hkind, h⟩ := bind_eq_ok.mp h
    obtain ⟨_, hknown, h⟩ := bind_eq_ok.mp h
    obtain ⟨hallowed, hknown⟩ := of_decide_eq_true (require_eq_ok.mp hknown)
    obtain ⟨_, hpresent, h⟩ := bind_eq_ok.mp h
    have hpresent := of_decide_eq_true (require_eq_ok.mp hpresent)
    obtain ⟨_, hlengths, h⟩ := bind_eq_ok.mp h
    have hheader := pure_eq_ok.mp h
    have hkindValue := FrameKind.ofValue_eq_ok.mp hkind
    have hflags := flags_of_known (unpackBytes_lt hflagsLength) hknown
    have valid := validateLengths_eq_ok.mp hlengths
    -- the flag and the payload length of an accepted header tell the same
    have hpayload : (unpackBytes payloadField : Int) = header.payloadLength.getD 0 ∧
        header.payloadLength.isSome = decide (unpackBytes flagsField &&& artifactPresent ≠ 0) := by
      rw [← hheader]
      by_cases hzero : unpackBytes payloadField = 0
      · simp [hpresent, hzero]
      · simp [hpresent, hzero]
    have hflagsValue : headerFlags header = unpackBytes flagsField := by
      unfold headerFlags
      rw [hpayload.2]
      rcases hflags with hzero | hone
      · simp [hzero]
      · simp [hone, artifactPresent]
    have hdocument : header.documentLength = unpackBytes documentField := by rw [← hheader]
    have hkindHeader : header.kind = kind := by rw [← hheader]
    rw [hheader] at valid
    refine ⟨hkindHeader ▸ hallowed, valid, ?_⟩
    have hdocumentPack : packBytes 4 header.documentLength.toNat = documentField := by
      rw [hdocument, Int.toNat_natCast, packBytes_unpackBytes hdocumentLength]
    have hpayloadPack : packBytes 8 (header.payloadLength.getD 0).toNat = payloadField := by
      rw [← hpayload.1, Int.toNat_natCast, packBytes_unpackBytes hpayloadLength]
    rw [← hflat, headerFields, hmagic, ← hversion, packBytes_unpackBytes hversionLength,
      hkindHeader, ← hkindValue, packBytes_unpackBytes hkindLength, hflagsValue,
      packBytes_unpackBytes hflagsLength, hdocumentPack, hpayloadPack]
  · nomatch h

/-- Decoding is encoding backwards, for the kinds that are expected. -/
theorem header_codec (header : FrameHeader) (raw : Bytes) (allowed : List FrameKind) :
    decodeHeader raw allowed = .ok header ↔
      header.kind ∈ allowed ∧ encodeHeader header = .ok raw := by
  rw [encodeHeader_eq_ok]
  constructor
  · intro h
    exact decodeHeader_ok h
  · rintro ⟨hallowed, valid, rfl⟩
    exact decode_headerFields valid hallowed

/-- Headers and acknowledgements have one wire form each, the decoder accepts nothing else,
and both sides accept the same lengths. -/
theorem operator_frame_codec :
    (∀ header raw allowed, decodeHeader raw allowed = .ok header ↔
      header.kind ∈ allowed ∧ encodeHeader header = .ok raw) ∧
    (∀ receipt raw, ExportAcknowledgement.encode receipt = .ok raw ↔
      ExportAcknowledgement.decode raw = .ok receipt) ∧
    (∀ header, (∃ raw, encodeHeader header = .ok raw) ↔ LengthsValid header) ∧
    ∀ header allowed, (∃ raw, decodeHeader raw allowed = .ok header) ↔
      header.kind ∈ allowed ∧ LengthsValid header := by
  have hencoded : ∀ header, (∃ raw, encodeHeader header = .ok raw) ↔ LengthsValid header := by
    intro header
    simp only [encodeHeader_eq_ok, exists_and_left, exists_eq, and_true]
  refine ⟨header_codec, acknowledgement_codec, hencoded, ?_⟩
  intro header allowed
  simp only [header_codec, exists_and_left, hencoded]

end StaticHostAgent.Contracts.OperatorProtocol
