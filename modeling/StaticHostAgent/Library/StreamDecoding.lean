import Mathlib.Data.List.Basic
import Mathlib.Data.List.Infix
import Mathlib.Order.Monotone.Defs
import Mathlib.Algebra.GroupWithZero.Nat
import Mathlib.Order.Lattice

/-!
# Decoders of a compressed stream

A format says what a decoder that sees some bytes can make of them: nothing, the output so far, or a
whole stream and what follows it. A decompressor reads the bytes in pieces and hands the output out
in pieces of bounded size. `Decompressor` is the contract of such an object as its documentation
states it: what it has not read is the unconsumed tail, what follows the stream is unused, and if a
call was not cut off by its bound then nothing is held back. A call that was cut off may hold back
output, and the end of the stream with it.

`eager` reads all it is given: of all decompressors it holds back the most.
-/

set_option autoImplicit false

namespace StaticHostAgent.Library

/-- What can be made of some bytes. -/
inductive Decoded where
  | invalid
  | ongoing (output : List UInt8)
  | ended (output trailing : List UInt8)
  deriving DecidableEq

/-- The output of the part that was decoded. -/
def Decoded.output : Decoded → List UInt8
  | .invalid => []
  | .ongoing output => output
  | .ended output _ => output

/-- A format of self-delimiting streams, by what a decoder makes of all bytes at once. -/
structure StreamFormat where
  decode : List UInt8 → Decoded
  decode_nil : decode [] = .ongoing []
  invalid_append : ∀ {a : List UInt8} (b : List UInt8), decode a = .invalid →
    decode (a ++ b) = .invalid
  ongoing_append : ∀ {a output : List UInt8} (b : List UInt8), decode a = .ongoing output →
    decode (a ++ b) ≠ .invalid → output <+: (decode (a ++ b)).output
  ended_append : ∀ {a output trailing : List UInt8} (b : List UInt8),
    decode a = .ended output trailing → decode (a ++ b) = .ended output (trailing ++ b)
  ended_split : ∀ {a output trailing : List UInt8}, decode a = .ended output trailing →
    ∃ stream, a = stream ++ trailing ∧ decode stream = .ended output []

namespace StreamFormat

variable (format : StreamFormat) {a b output trailing : List UInt8}

/-- What precedes a stream that ends with the last byte is not invalid, and its output begins the
output of the stream. -/
theorem before_end (h : format.decode (a ++ b) = .ended output []) :
    format.decode a ≠ .invalid ∧ (format.decode a).output <+: output ∧
      (∀ o t, format.decode a = .ended o t → o = output ∧ t = [] ∧ b = []) := by
  cases ha : format.decode a with
  | invalid =>
      rw [format.invalid_append b ha] at h
      exact nomatch h
  | ongoing o =>
      have hinitial := format.ongoing_append b ha (by rw [h]; exact nofun)
      rw [h] at hinitial
      exact ⟨nofun, hinitial, nofun⟩
  | ended o t =>
      rw [format.ended_append b ha] at h
      injection h with ho ht
      obtain ⟨rfl, rfl⟩ := List.append_eq_nil_iff.1 ht
      refine ⟨nofun, ?_, ?_⟩
      · rw [ho]
        exact List.prefix_refl _
      · intro o' t' heq
        injection heq with ho' ht'
        exact ⟨ho'.symm.trans ho, ht'.symm, rfl⟩

end StreamFormat

/-! ## The format of one stream -/

section SingleStream

variable (code output : List UInt8) (available : Nat → Nat)

/-- What the bytes decode to if `code` is the only stream and the first `n` bytes of it give
`available n` bytes of its output. -/
def decodeSingle (bytes : List UInt8) : Decoded :=
  if code <+: bytes then .ended output (bytes.drop code.length)
  else if bytes <+: code then .ongoing (output.take (available bytes.length))
  else .invalid

theorem decodeSingle_append {a : List UInt8} (b : List UInt8) (h : code <+: a) :
    decodeSingle code output available (a ++ b) = .ended output (a.drop code.length ++ b) := by
  unfold decodeSingle
  rw [if_pos (h.trans (List.prefix_append a b)), List.drop_append_of_le_length h.length_le]

/-- The format with one stream. -/
def singleStream (hcode : code ≠ []) (hnone : available 0 = 0) (hmono : Monotone available) :
    StreamFormat where
  decode := decodeSingle code output available
  decode_nil := by
    have hnot : ¬ code <+: [] := fun h => hcode (List.prefix_nil.1 h)
    unfold decodeSingle
    rw [if_neg hnot, if_pos List.nil_prefix, List.length_nil, hnone, List.take_zero]
  invalid_append := by
    intro a b h
    unfold decodeSingle at h ⊢
    by_cases hcode : code <+: a
    · rw [if_pos hcode] at h
      exact nomatch h
    · by_cases ha : a <+: code
      · rw [if_neg hcode, if_pos ha] at h
        exact nomatch h
      · have hwhole : ¬ code <+: a ++ b := by
          intro hc
          rcases List.prefix_or_prefix_of_prefix hc (List.prefix_append a b) with hca | hac
          · exact hcode hca
          · exact ha hac
        have hpart : ¬ a ++ b <+: code := fun hab => ha ((List.prefix_append a b).trans hab)
        rw [if_neg hwhole, if_neg hpart]
  ongoing_append := by
    intro a o b h hvalid
    have hsplit : ¬ code <+: a ∧ output.take (available a.length) = o := by
      unfold decodeSingle at h
      by_cases hcode : code <+: a
      · rw [if_pos hcode] at h
        exact nomatch h
      · rw [if_neg hcode] at h
        by_cases ha : a <+: code
        · rw [if_pos ha] at h
          exact ⟨hcode, Decoded.ongoing.inj h⟩
        · rw [if_neg ha] at h
          exact nomatch h
    rw [← hsplit.2]
    unfold decodeSingle at hvalid ⊢
    by_cases hwhole : code <+: a ++ b
    · rw [if_pos hwhole]
      exact List.take_prefix _ _
    · rw [if_neg hwhole] at hvalid ⊢
      by_cases hpart : a ++ b <+: code
      · rw [if_pos hpart]
        apply List.take_prefix_take_left
        apply hmono
        rw [List.length_append]
        exact Nat.le_add_right _ _
      · rw [if_neg hpart] at hvalid
        exact absurd rfl hvalid
  ended_append := by
    intro a o t b h
    have hcode : code <+: a := by
      by_contra hnot
      unfold decodeSingle at h
      rw [if_neg hnot] at h
      split at h
      · exact nomatch h
      · exact nomatch h
    rw [decodeSingle_append code output available b hcode]
    unfold decodeSingle at h
    rw [if_pos hcode] at h
    obtain ⟨rfl, rfl⟩ := Decoded.ended.inj h
    rfl
  ended_split := by
    intro a o t h
    unfold decodeSingle at h
    by_cases hcode : code <+: a
    · rw [if_pos hcode] at h
      obtain ⟨rfl, rfl⟩ := Decoded.ended.inj h
      refine ⟨code, (List.prefix_iff_eq_append.1 hcode).symm, ?_⟩
      unfold decodeSingle
      rw [if_pos (List.prefix_refl _), List.drop_length]
    · rw [if_neg hcode] at h
      split at h
      · exact nomatch h
      · exact nomatch h

theorem singleStream_code (hcode : code ≠ []) (hnone : available 0 = 0)
    (hmono : Monotone available) :
    (singleStream code output available hcode hnone hmono).decode code = .ended output [] := by
  show decodeSingle code output available code = _
  unfold decodeSingle
  rw [if_pos (List.prefix_refl _), List.drop_length]

end SingleStream

/-! ## Decompressors -/

/-- What one call on a stream that had not ended does: it reads `taken` of the data and leaves
`rest`. -/
structure CallContract (format : StreamFormat) (seen given seen' given' : List UInt8) (eof : Bool)
    (unused tail data output : List UInt8) (cap : Nat) : Prop where
  capped : output.length ≤ cap
  gives : given' = given ++ output
  reads : ∃ taken rest, data = taken ++ rest ∧ seen' = seen ++ taken ∧
    (eof = true ∧ unused = rest ∧ tail = [] ∧ format.decode seen' = .ended given' [] ∨
      eof = false ∧ unused = [] ∧ tail = rest ∧ format.decode seen' ≠ .invalid ∧
        given' <+: (format.decode seen').output ∧
        (output.length < cap → rest = [] ∧ format.decode seen' = .ongoing given'))

/-- An object that decodes a stream piece by piece. `seen` and `given` are what it has read and
handed out so far. -/
structure Decompressor (format : StreamFormat) where
  State : Type
  start : State
  decompress : State → List UInt8 → Nat → Option (List UInt8 × State)
  eof : State → Bool
  unusedData : State → List UInt8
  unconsumedTail : State → List UInt8
  seen : State → List UInt8
  given : State → List UInt8
  start_fresh : eof start = false ∧ unusedData start = [] ∧ unconsumedTail start = [] ∧
    seen start = [] ∧ given start = []
  /-- An error is raised only over bytes that are no stream. -/
  raises : ∀ {s : State} {data : List UInt8} {cap : Nat}, eof s = false →
    decompress s data cap = none → format.decode (seen s ++ data) = .invalid
  returns : ∀ {s t : State} {data output : List UInt8} {cap : Nat}, eof s = false → 0 < cap →
    decompress s data cap = some (output, t) →
    CallContract format (seen s) (given s) (seen t) (given t) (eof t) (unusedData t)
      (unconsumedTail t) data output cap
  /-- After the end of the stream all data is unused. -/
  ends : ∀ {s : State} (data : List UInt8) (cap : Nat), eof s = true →
    ∃ t, decompress s data cap = some ([], t) ∧ eof t = true ∧
      unusedData t = unusedData s ++ data ∧ unconsumedTail t = [] ∧ seen t = seen s ∧
      given t = given s

/-! ## The eager decompressor -/

/-- What the eager decompressor keeps: it has not gone beyond the end of the stream, and what it
handed out begins the output. -/
structure EagerState (format : StreamFormat) where
  eof : Bool
  unusedData : List UInt8
  unconsumedTail : List UInt8
  seen : List UInt8
  given : List UInt8
  within : eof = false → ∃ output, given <+: output ∧
    (format.decode seen = .ongoing output ∨ format.decode seen = .ended output [])

namespace EagerState

variable {format : StreamFormat}

def start (format : StreamFormat) : EagerState format where
  eof := false
  unusedData := []
  unconsumedTail := []
  seen := []
  given := []
  within := fun _ => ⟨[], List.prefix_refl _, .inl format.decode_nil⟩

/-- The bytes of `data` that precede what follows the stream. -/
def taken (data trailing : List UInt8) : List UInt8 := data.take (data.length - trailing.length)

theorem taken_split (s : EagerState format) (hopen : s.eof = false)
    {data output trailing : List UInt8}
    (h : format.decode (s.seen ++ data) = .ended output trailing) :
    data = taken data trailing ++ trailing ∧
      format.decode (s.seen ++ taken data trailing) = .ended output [] := by
  obtain ⟨stream, hstream, hdecode⟩ := format.ended_split h
  obtain ⟨rest, hdata, hseen⟩ : ∃ rest, data = rest ++ trailing ∧ stream = s.seen ++ rest := by
    rcases List.append_eq_append_iff.1 hstream with ⟨c, hc, hd⟩ | ⟨c, hc, hd⟩
    · exact ⟨c, hd, hc⟩
    · -- the stream would have ended before what was seen
      rw [hc] at h
      have hwithin := s.within hopen
      rw [hc, format.ended_append c hdecode] at hwithin
      obtain ⟨_, _, hongoing | hended⟩ := hwithin
      · exact nomatch hongoing
      · injection hended with _ hnil
        rw [List.nil_append] at hnil
        subst hnil
        exact ⟨[], hd.symm, by rw [hc, List.append_nil, List.append_nil]⟩
  have htaken : taken data trailing = rest := by
    unfold taken
    rw [hdata, List.length_append, Nat.add_sub_cancel, List.take_left]
  rw [htaken, ← hseen]
  exact ⟨hdata, hdecode⟩

/-- The next part of the output, at most `cap` bytes of it. -/
def nextOutput (s : EagerState format) (output : List UInt8) (cap : Nat) : List UInt8 :=
  (output.drop s.given.length).take cap

theorem given_prefix (s : EagerState format) (hopen : s.eof = false) {data : List UInt8}
    (hvalid : format.decode (s.seen ++ data) ≠ .invalid) :
    s.given <+: (format.decode (s.seen ++ data)).output := by
  obtain ⟨output, hinitial, hongoing | hended⟩ := s.within hopen
  · exact hinitial.trans (format.ongoing_append data hongoing hvalid)
  · rw [format.ended_append data hended]
    exact hinitial

theorem nextOutput_prefix (s : EagerState format) {output : List UInt8}
    (hinitial : s.given <+: output) (cap : Nat) :
    s.given ++ s.nextOutput output cap <+: output := by
  obtain ⟨rest, rfl⟩ := hinitial
  unfold nextOutput
  rw [List.drop_left]
  exact (List.prefix_append_right_inj _).2 (List.take_prefix _ _)

/-- If less than the bound comes out, all of the output has. -/
theorem nextOutput_all (s : EagerState format) {output : List UInt8} {cap : Nat}
    (hinitial : s.given <+: output) (hshort : (s.nextOutput output cap).length < cap) :
    s.given ++ s.nextOutput output cap = output := by
  obtain ⟨rest, rfl⟩ := hinitial
  unfold nextOutput at hshort ⊢
  rw [List.drop_left] at hshort ⊢
  rw [List.length_take] at hshort
  rw [List.take_of_length_le (by omega)]

/-- The state after the stream has ended and more data came. -/
def afterEnd (s : EagerState format) (data : List UInt8) : EagerState format where
  eof := true
  unusedData := s.unusedData ++ data
  unconsumedTail := []
  seen := s.seen
  given := s.given
  within := fun h => nomatch h

/-- The state after a call that did not reach the end, all the data read. -/
def onTheWay (s : EagerState format) (hopen : s.eof = false) {data output : List UInt8}
    (h : format.decode (s.seen ++ data) = .ongoing output) (cap : Nat) : EagerState format where
  eof := false
  unusedData := []
  unconsumedTail := []
  seen := s.seen ++ data
  given := s.given ++ s.nextOutput output cap
  within := by
    intro _
    have hinitial := s.given_prefix hopen (by rw [h]; exact nofun)
    rw [h] at hinitial
    exact ⟨output, s.nextOutput_prefix hinitial cap, .inl h⟩

/-- The state after a call that read to the end of the stream: it reports the end only if the bound
left room. -/
def atTheEnd (s : EagerState format) (hopen : s.eof = false) {data output trailing : List UInt8}
    (h : format.decode (s.seen ++ data) = .ended output trailing) (cap : Nat) :
    EagerState format where
  eof := decide ((s.nextOutput output cap).length < cap)
  unusedData := if (s.nextOutput output cap).length < cap then trailing else []
  unconsumedTail := if (s.nextOutput output cap).length < cap then [] else trailing
  seen := s.seen ++ taken data trailing
  given := s.given ++ s.nextOutput output cap
  within := by
    intro _
    have hinitial := s.given_prefix hopen (by rw [h]; exact nofun)
    rw [h] at hinitial
    exact ⟨output, s.nextOutput_prefix hinitial cap, .inr (s.taken_split hopen h).2⟩

def decompress (s : EagerState format) (data : List UInt8) (cap : Nat) :
    Option (List UInt8 × EagerState format) :=
  if hended : s.eof = true then some ([], s.afterEnd data)
  else
    match h : format.decode (s.seen ++ data) with
    | .invalid => none
    | .ongoing output =>
        some (s.nextOutput output cap, s.onTheWay (Bool.eq_false_iff.2 hended) h cap)
    | .ended output _ =>
        some (s.nextOutput output cap, s.atTheEnd (Bool.eq_false_iff.2 hended) h cap)

theorem decompress_ongoing (s : EagerState format) (hopen : s.eof = false)
    {data output : List UInt8} (h : format.decode (s.seen ++ data) = .ongoing output) (cap : Nat) :
    s.decompress data cap = some (s.nextOutput output cap, s.onTheWay hopen h cap) := by
  unfold decompress
  rw [dif_neg (Bool.eq_false_iff.1 hopen)]
  split
  · rename_i hd
    rw [h] at hd
    exact nomatch hd
  · rename_i o hd
    have ho : output = o := Decoded.ongoing.inj (h.symm.trans hd)
    subst ho
    rfl
  · rename_i hd
    rw [h] at hd
    exact nomatch hd

theorem decompress_ended (s : EagerState format) (hopen : s.eof = false)
    {data output trailing : List UInt8}
    (h : format.decode (s.seen ++ data) = .ended output trailing) (cap : Nat) :
    s.decompress data cap = some (s.nextOutput output cap, s.atTheEnd hopen h cap) := by
  unfold decompress
  rw [dif_neg (Bool.eq_false_iff.1 hopen)]
  split
  · rename_i hd
    rw [h] at hd
    exact nomatch hd
  · rename_i hd
    rw [h] at hd
    exact nomatch hd
  · rename_i o t hd
    obtain ⟨ho, ht⟩ := Decoded.ended.inj (h.symm.trans hd)
    subst ho ht
    rfl

theorem decompress_returns (s : EagerState format) (hopen : s.eof = false) {t : EagerState format}
    {data output : List UInt8} {cap : Nat} (h : s.decompress data cap = some (output, t)) :
    CallContract format s.seen s.given t.seen t.given t.eof t.unusedData t.unconsumedTail data
      output cap := by
  cases hdecode : format.decode (s.seen ++ data) with
  | invalid =>
      unfold decompress at h
      rw [dif_neg (Bool.eq_false_iff.1 hopen)] at h
      split at h
      · exact nomatch h
      · rename_i hd
        rw [hdecode] at hd
        exact nomatch hd
      · rename_i hd
        rw [hdecode] at hd
        exact nomatch hd
  | ongoing all =>
      rw [s.decompress_ongoing hopen hdecode] at h
      obtain ⟨rfl, rfl⟩ := Prod.mk.inj (Option.some.inj h)
      have hinitial := s.given_prefix hopen (by rw [hdecode]; exact nofun)
      rw [hdecode] at hinitial
      change s.given <+: all at hinitial
      refine ⟨List.length_take_le _ _, rfl, data, [], (List.append_nil _).symm, rfl, .inr ?_⟩
      refine ⟨rfl, rfl, rfl, ?_, ?_, ?_⟩
      · show format.decode (s.seen ++ data) ≠ _
        rw [hdecode]
        exact nofun
      · show _ <+: (format.decode (s.seen ++ data)).output
        rw [hdecode]
        exact s.nextOutput_prefix hinitial cap
      · intro hshort
        refine ⟨rfl, ?_⟩
        show format.decode (s.seen ++ data) = .ongoing (s.given ++ _)
        rw [hdecode, s.nextOutput_all hinitial hshort]
  | ended all trailing =>
      rw [s.decompress_ended hopen hdecode] at h
      obtain ⟨rfl, rfl⟩ := Prod.mk.inj (Option.some.inj h)
      have hinitial := s.given_prefix hopen (by rw [hdecode]; exact nofun)
      rw [hdecode] at hinitial
      change s.given <+: all at hinitial
      obtain ⟨hsplit, hstream⟩ := s.taken_split hopen hdecode
      refine ⟨List.length_take_le _ _, rfl, taken data trailing, trailing, hsplit, rfl, ?_⟩
      -- less than the cap came out, so the end is reported; otherwise output may be held back
      by_cases hshort : (s.nextOutput all cap).length < cap
      · left
        refine ⟨decide_eq_true hshort, if_pos hshort, if_pos hshort, ?_⟩
        show format.decode (s.seen ++ taken data trailing) = .ended (s.given ++ _) []
        rw [hstream, s.nextOutput_all hinitial hshort]
      · right
        refine ⟨decide_eq_false hshort, if_neg hshort, if_neg hshort, ?_, ?_, ?_⟩
        · show format.decode (s.seen ++ taken data trailing) ≠ _
          rw [hstream]
          exact nofun
        · show _ <+: (format.decode (s.seen ++ taken data trailing)).output
          rw [hstream]
          exact s.nextOutput_prefix hinitial cap
        · exact fun h => absurd h hshort

end EagerState

/-- The decompressor that reads all data at once. -/
def eager (format : StreamFormat) : Decompressor format where
  State := EagerState format
  start := EagerState.start format
  decompress := EagerState.decompress
  eof := EagerState.eof
  unusedData := EagerState.unusedData
  unconsumedTail := EagerState.unconsumedTail
  seen := EagerState.seen
  given := EagerState.given
  start_fresh := ⟨rfl, rfl, rfl, rfl, rfl⟩
  raises := by
    intro s data cap hopen h
    cases hdecode : format.decode (s.seen ++ data) with
    | invalid => rfl
    | ongoing output =>
        rw [s.decompress_ongoing hopen hdecode] at h
        exact nomatch h
    | ended output trailing =>
        rw [s.decompress_ended hopen hdecode] at h
        exact nomatch h
  returns := fun hopen _ h => EagerState.decompress_returns _ hopen h
  ends := by
    intro s data cap hended
    refine ⟨s.afterEnd data, ?_, rfl, rfl, rfl, rfl, rfl⟩
    unfold EagerState.decompress
    rw [dif_pos hended]

end StaticHostAgent.Library
