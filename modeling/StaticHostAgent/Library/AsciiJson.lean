import StaticHostAgent.Library.CanonicalJson
import StaticHostAgent.Library.JsonText
import Mathlib.Data.Rat.Lemmas
import Mathlib.Data.String.Lemmas

/-!
# Canonical texts of natural numbers and printable characters

A JSON library that writes and reads documents whose numbers are natural and whose strings are
printable ASCII without quotes and backslashes. It has the laws of `CanonicalText` (`asciiText`) and
of `JsonText` (`asciiJson`).
-/

set_option autoImplicit false

namespace StaticHostAgent.Library.AsciiJson

open JsonLeaves

/-! ## Leaves -/

/-- The byte of an ASCII character. -/
def byte (c : Char) : UInt8 := UInt8.ofNat c.toNat

def char (b : UInt8) : Char := Char.ofNat b.toNat

/-- A character that stands for itself between quotes. -/
def isPrintable (c : Char) : Bool :=
  decide (32 ≤ c.toNat) && decide (c.toNat < 127) && decide (c ≠ '"') && decide (c ≠ '\\')

/-- The UTF-8 bytes of a text. -/
def bytes (text : String) : List UInt8 := text.toByteArray.data.toList

def leaves : JsonLeaves where
  number value :=
    if value.den = 1 ∧ 0 ≤ value.num then some ((Nat.toDigits 10 value.num.toNat).map byte) else none
  string value :=
    if (bytes value).all fun b => isPrintable (char b) then some (34 :: bytes value ++ [34]) else none

theorem toNat_byte {c : Char} (h : c.toNat < 128) : (byte c).toNat = c.toNat := by
  unfold byte
  rw [UInt8.toNat_ofNat']
  omega

theorem toNat_char (b : UInt8) : (char b).toNat = b.toNat := by
  have hlt := b.toNat_lt
  unfold char Char.ofNat
  rw [dif_pos (Or.inl (by omega))]
  rfl

theorem char_byte {c : Char} (h : c.toNat < 128) : char (byte c) = c := by
  unfold char
  rw [toNat_byte h, Char.ofNat_toNat]

theorem map_char_byte {cs : List Char} (h : ∀ c ∈ cs, c.toNat < 128) :
    (cs.map byte).map char = cs := by
  rw [List.map_map]
  exact (List.map_congr_left fun c hc => char_byte (h c hc)).trans (List.map_id cs)

theorem byte_ne {c : Char} {b : UInt8} (h : c.toNat < 128) (hb : c.toNat ≠ b.toNat) :
    byte c ≠ b := by
  intro heq
  exact hb ((toNat_byte h).symm.trans (congrArg UInt8.toNat heq))

theorem isPrintable_iff {c : Char} :
    isPrintable c = true ↔ 32 ≤ c.toNat ∧ c.toNat < 127 ∧ c ≠ '"' ∧ c ≠ '\\' := by
  simp only [isPrintable, Bool.and_eq_true, decide_eq_true_eq, and_assoc]

theorem bytes_eq (text : String) : bytes text = text.toList.flatMap String.utf8EncodeChar := by
  unfold bytes
  rw [← String.utf8Encode_toList, List.utf8Encode, List.toList_data_toByteArray]

/-- A character whose bytes are ASCII is its only byte. -/
theorem utf8EncodeChar_ascii {c : Char} (h : ∀ b ∈ String.utf8EncodeChar c, b.toNat < 128) :
    String.utf8EncodeChar c = [byte c] ∧ c.toNat < 128 := by
  have hlast : ∀ b, (String.utf8EncodeChar c).head? = some b → b.toNat < 128 :=
    fun b hb => h b (List.mem_of_head? hb)
  have hval : c.val.toNat = c.toNat := rfl
  simp only [String.utf8EncodeChar, hval] at hlast ⊢
  by_cases hascii : c.toNat ≤ 127
  · exact ⟨if_pos hascii, by omega⟩
  · exfalso
    rw [if_neg hascii] at hlast
    split at hlast
    · have hfirst := hlast _ rfl
      rw [UInt8.toNat_ofNat'] at hfirst
      omega
    · split at hlast
      all_goals
        have hfirst := hlast _ rfl
        rw [UInt8.toNat_ofNat'] at hfirst
        omega

theorem bytes_printable {text : String} (h : ∀ b ∈ bytes text, isPrintable (char b) = true) :
    (∀ c ∈ text.toList, isPrintable c = true) ∧ bytes text = text.toList.map byte := by
  rw [bytes_eq] at h ⊢
  have hascii : ∀ c ∈ text.toList, String.utf8EncodeChar c = [byte c] ∧ c.toNat < 128 := by
    intro c hc
    refine utf8EncodeChar_ascii fun b hb => ?_
    have hprintable := isPrintable_iff.1 (h b (List.mem_flatMap.2 ⟨c, hc, hb⟩))
    rw [toNat_char] at hprintable
    omega
  constructor
  · intro c hc
    obtain ⟨hbyte, hlt⟩ := hascii c hc
    rw [← char_byte hlt]
    exact h _ (List.mem_flatMap.2 ⟨c, hc, by rw [hbyte]; exact List.mem_singleton_self _⟩)
  · rw [List.map_eq_flatMap]
    exact List.flatMap_congr fun c hc => (hascii c hc).1

theorem isDigit_lt {c : Char} (h : c.isDigit = true) : 48 ≤ c.toNat ∧ c.toNat ≤ 57 := by
  unfold Char.isDigit at h
  simp only [Bool.and_eq_true, decide_eq_true_eq] at h
  exact ⟨UInt32.le_iff_toNat_le.1 h.1, UInt32.le_iff_toNat_le.1 h.2⟩

theorem number_eq_some {value : ℚ} {raw : List UInt8} (h : leaves.number value = some raw) :
    ∃ n : ℕ, value = n ∧ raw = (Nat.toDigits 10 n).map byte := by
  change (if value.den = 1 ∧ 0 ≤ value.num then _ else none) = some raw at h
  split at h
  · rename_i hnatural
    refine ⟨value.num.toNat, ?_, (Option.some.inj h).symm⟩
    have hvalue : ((value.num.toNat : ℤ) : ℚ) = value := by
      rw [Int.toNat_of_nonneg hnatural.2]
      exact (Rat.den_eq_one_iff value).1 hnatural.1
    exact hvalue.symm
  · cases h

theorem string_eq_some {value : String} {raw : List UInt8} (h : leaves.string value = some raw) :
    (∀ c ∈ value.toList, isPrintable c = true) ∧ raw = 34 :: value.toList.map byte ++ [34] := by
  change (if (bytes value).all fun b => isPrintable (char b) then _ else none) = some raw at h
  split at h
  · rename_i hall
    obtain ⟨hprintable, hbytes⟩ := bytes_printable (List.all_eq_true.1 hall)
    rw [← hbytes]
    exact ⟨hprintable, (Option.some.inj h).symm⟩
  · cases h

theorem toDigits_isDigit {n : ℕ} {c : Char} (h : c ∈ Nat.toDigits 10 n) : c.isDigit = true :=
  Nat.isDigit_of_mem_toDigits (by decide) (by decide) h

theorem number_plain (value : ℚ) (raw : List UInt8) (h : leaves.number value = some raw) :
    Plain raw := by
  obtain ⟨n, rfl, rfl⟩ := number_eq_some h
  have hbyte : ∀ b : UInt8, b.toNat < 48 → b ∉ (Nat.toDigits 10 n).map byte := by
    intro b hb hmem
    obtain ⟨c, hc, heq⟩ := List.mem_map.1 hmem
    have hdigit := isDigit_lt (toDigits_isDigit hc)
    exact byte_ne (by omega) (by omega) heq
  exact ⟨hbyte 10 (by decide), hbyte 13 (by decide)⟩

theorem string_plain (value : String) (raw : List UInt8) (h : leaves.string value = some raw) :
    Plain raw := by
  obtain ⟨hall, rfl⟩ := string_eq_some h
  have hbyte : ∀ b : UInt8, b.toNat < 32 → b ∉ value.toList.map byte := by
    intro b hb hmem
    obtain ⟨c, hc, heq⟩ := List.mem_map.1 hmem
    have hprintable := isPrintable_iff.1 (hall c hc)
    exact byte_ne (by omega) (by omega) heq
  have hinside : Plain (value.toList.map byte) := ⟨hbyte 10 (by decide), hbyte 13 (by decide)⟩
  exact Plain.cons (by decide) (by decide)
    (hinside.append (Plain.cons (by decide) (by decide) plain_nil))

/-! ## The parser -/

def isDigit (b : UInt8) : Bool := (char b).isDigit

/-- Line feeds behind a value are passed over. -/
def skip (raw : List UInt8) : List UInt8 := raw.dropWhile fun b => b = 10

def readString : List UInt8 → Option (String × List UInt8)
  | [] => none
  | b :: raw =>
      if b = 34 then
        match raw.dropWhile fun b => b ≠ 34 with
        | [] => none
        | _ :: rest => some (String.ofList ((raw.takeWhile fun b => b ≠ 34).map char), rest)
      else none

def readNumber (raw : List UInt8) : Json × List UInt8 :=
  (.number (Nat.ofDigitChars 10 ((raw.takeWhile isDigit).map char) 0 : ℕ), raw.dropWhile isDigit)

def words : List (List UInt8 × Json) :=
  [([110, 117, 108, 108], .null), ([116, 114, 117, 101], .bool true),
    ([102, 97, 108, 115, 101], .bool false)]

def readWord (raw : List UInt8) : Option (Json × List UInt8) :=
  words.findSome? fun word =>
    if word.1.isPrefixOf raw then some (word.2, raw.drop word.1.length) else none

/-- What stands between commas, up to a closing byte. -/
def readMany {α : Type} (read : List UInt8 → Option (α × List UInt8)) (close : UInt8) :
    ℕ → List UInt8 → Option (List α × List UInt8)
  | 0, _ => none
  | n + 1, raw => do
      let (a, rest) ← read raw
      match rest with
      | [] => none
      | b :: rest =>
          if b = 44 then do
            let (more, rest) ← readMany read close n rest
            some (a :: more, rest)
          else if b = close then some ([a], rest)
          else none

def readMember (read : List UInt8 → Option (Json × List UInt8)) (raw : List UInt8) :
    Option ((String × Json) × List UInt8) := do
  let (name, rest) ← readString raw
  match rest with
  | [] => none
  | b :: rest =>
      if b = 58 then do
        let (value, rest) ← read rest
        some ((name, value), rest)
      else none

/-- What a bracket opens. -/
def readBracket {α : Type} (read : List UInt8 → Option (α × List UInt8)) (close : UInt8)
    (raw : List UInt8) : Option (List α × List UInt8) :=
  if raw.head? = some close then some ([], raw.tail) else readMany read close raw.length raw

/-- Read a value that begins with the byte `b`; `read` reads the values in it. -/
def readFrom (read : List UInt8 → Option (Json × List UInt8)) (b : UInt8) (raw : List UInt8) :
    Option (Json × List UInt8) :=
  if b = 34 then (readString (b :: raw)).map fun r => (.string r.1, r.2)
  else if b = 91 then (readBracket read 93 raw).map fun r => (.array r.1, r.2)
  else if b = 123 then
    ((readBracket (readMember read) 125 raw).filter fun r =>
      decide (Json.NamesAscend (r.1.map Prod.fst))).map fun r => (.object r.1, r.2)
  else if isDigit b then some (readNumber (b :: raw))
  else readWord (b :: raw)

/-- Read a value and the line feeds behind it. -/
def readValue : ℕ → List UInt8 → Option (Json × List UInt8)
  | 0, _ => none
  | _, [] => none
  | fuel + 1, b :: raw => (readFrom (readValue fuel) b raw).map fun r => (r.1, skip r.2)

def loads (raw : List UInt8) : Option Json :=
  match readValue raw.length raw with
  | some (value, []) => some value
  | _ => none

/-! ## What is written is read -/

/-- A text that does not go on with a digit. -/
def Ends (raw : List UInt8) : Prop := ∀ b, raw.head? = some b → isDigit b = false

theorem ends_cons {b : UInt8} (h : isDigit b = false) (raw : List UInt8) : Ends (b :: raw) := by
  intro b' hb
  cases hb
  exact h

theorem takeWhile_append {p : UInt8 → Bool} {text rest : List UInt8} (htext : ∀ b ∈ text, p b = true)
    (hrest : ∀ b, rest.head? = some b → p b = false) :
    (text ++ rest).takeWhile p = text ∧ (text ++ rest).dropWhile p = rest := by
  rw [List.takeWhile_append_of_pos htext, List.dropWhile_append_of_pos htext]
  cases rest with
  | nil => simp
  | cons b rest =>
      have hb : p b = false := hrest b rfl
      simp [hb]

theorem readNumber_number {value : ℚ} {raw rest : List UInt8}
    (h : leaves.number value = some raw) (hrest : Ends rest) :
    readNumber (raw ++ rest) = (.number value, rest) := by
  obtain ⟨n, rfl, rfl⟩ := number_eq_some h
  have hdigits : ∀ b ∈ (Nat.toDigits 10 n).map byte, isDigit b = true := by
    intro b hb
    obtain ⟨c, hc, rfl⟩ := List.mem_map.1 hb
    have hdigit := toDigits_isDigit hc
    have hlt := isDigit_lt hdigit
    unfold isDigit
    rw [char_byte (by omega)]
    exact hdigit
  obtain ⟨htake, hdrop⟩ := takeWhile_append hdigits hrest
  have hchars : ((Nat.toDigits 10 n).map byte).map char = Nat.toDigits 10 n := by
    refine map_char_byte fun c hc => ?_
    have hlt := isDigit_lt (toDigits_isDigit hc)
    omega
  unfold readNumber
  rw [htake, hdrop, hchars, Nat.ofDigitChars_ten_toDigits]

theorem readString_string {value : String} {raw : List UInt8} (h : leaves.string value = some raw)
    (rest : List UInt8) : readString (raw ++ rest) = some (value, rest) := by
  obtain ⟨hall, rfl⟩ := string_eq_some h
  have hplain : ∀ b ∈ value.toList.map byte, decide (b ≠ 34) = true := by
    intro b hb
    obtain ⟨c, hc, rfl⟩ := List.mem_map.1 hb
    have hprintable := isPrintable_iff.1 (hall c hc)
    refine decide_eq_true (byte_ne (by omega) fun heq => hprintable.2.2.1 ?_)
    exact Char.toNat_inj.1 heq
  have hquote : ∀ b, (34 :: rest).head? = some b → decide (b ≠ 34) = false := by
    intro b hb
    cases hb
    rfl
  obtain ⟨htake, hdrop⟩ := takeWhile_append hplain hquote
  have hchars : (value.toList.map byte).map char = value.toList := by
    refine map_char_byte fun c hc => ?_
    have hprintable := isPrintable_iff.1 (hall c hc)
    omega
  show readString (34 :: (value.toList.map byte ++ [34]) ++ rest) = _
  rw [List.cons_append, List.append_assoc, List.singleton_append]
  unfold readString
  simp only [if_true, htake, hdrop, hchars, String.ofList_toList]

/-- A reader that reads a text whatever follows. -/
def Reads {α : Type} (read : List UInt8 → Option (α × List UInt8)) (a : α) (text : List UInt8) :
    Prop :=
  ∀ rest, Ends rest → read (text ++ rest) = some (a, skip rest)

theorem readMany_commas {α : Type} {read : List UInt8 → Option (α × List UInt8)} {close : UInt8}
    (hcomma : close ≠ 44) (hline : close ≠ 10) (hdigit : isDigit close = false) {xs : List α}
    {texts : List (List UInt8)} (h : List.Forall₂ (Reads read) xs texts) (hne : texts ≠ []) :
    ∀ n, texts.length ≤ n → ∀ rest,
      readMany read close n (commas texts ++ close :: rest) = some (xs, rest) := by
  have hclose : ∀ rest, Ends (close :: rest) ∧ skip (close :: rest) = close :: rest := by
    intro rest
    refine ⟨ends_cons hdigit rest, ?_⟩
    unfold skip
    rw [List.dropWhile_cons_of_neg (by simpa using hline)]
  induction h with
  | nil => exact absurd rfl hne
  | @cons x text xs texts hread hmany ih =>
      intro n hn rest
      obtain ⟨n, rfl⟩ := Nat.exists_eq_add_of_lt (Nat.lt_of_lt_of_le (Nat.succ_pos _) hn)
      rw [Nat.zero_add] at hn ⊢
      cases texts with
      | nil =>
          obtain rfl := List.forall₂_nil_right_iff.1 hmany
          show readMany read close (n + 1) (text ++ close :: rest) = _
          unfold readMany
          rw [hread _ (hclose rest).1, (hclose rest).2]
          simp [hcomma]
      | cons second texts =>
          rw [commas_cons text (List.cons_ne_nil second texts), List.append_assoc, List.cons_append]
          unfold readMany
          rw [hread _ (ends_cons (by decide) _)]
          have hmore := ih (List.cons_ne_nil second texts) n (by simpa using hn) rest
          have hskip : ∀ rest, skip (44 :: rest) = 44 :: rest := fun _ => rfl
          rw [hskip]
          simp [hmore]

theorem readMember_member {read : List UInt8 → Option (Json × List UInt8)} {name : String}
    {value : Json} {key text : List UInt8} (hkey : leaves.string name = some key)
    (hread : Reads read value text) : Reads (readMember read) (name, value) (key ++ 58 :: text) := by
  intro rest hrest
  unfold readMember
  rw [List.append_assoc, List.cons_append, readString_string hkey]
  simp [hread rest hrest]

/-- A canonical text begins with none of the closing bytes. -/
theorem dumps_head {j : Json} {raw : List UInt8} (h : leaves.dumps j = some raw) :
    ∃ b text, raw = b :: text ∧ b ≠ 93 := by
  cases j with
  | null => exact ⟨_, _, (Option.some.inj h).symm, by decide⟩
  | bool value => cases value <;> exact ⟨_, _, (Option.some.inj h).symm, by decide⟩
  | number value =>
      obtain ⟨n, -, rfl⟩ := number_eq_some h
      cases hdigits : Nat.toDigits 10 n with
      | nil => exact absurd hdigits Nat.toDigits_ne_nil
      | cons c cs =>
          have hlt := isDigit_lt (toDigits_isDigit (n := n) (hdigits ▸ List.mem_cons_self))
          exact ⟨_, _, rfl, byte_ne (by omega) (by show c.toNat ≠ 93; omega)⟩
  | string value =>
      obtain ⟨-, rfl⟩ := string_eq_some h
      exact ⟨_, _, rfl, by decide⟩
  | array elements =>
      obtain ⟨texts, -, rfl⟩ := dumps_array.1 h
      exact ⟨_, _, rfl, by decide⟩
  | object members =>
      obtain ⟨texts, -, rfl⟩ := dumps_object.1 h
      exact ⟨_, _, rfl, by decide⟩

theorem commas_head {text : List UInt8} {texts : List (List UInt8)} {b : UInt8} {rest : List UInt8}
    (h : text = b :: rest) : ∃ rest, commas (text :: texts) = b :: rest := by
  subst h
  cases texts with
  | nil => exact ⟨_, rfl⟩
  | cons second texts => exact ⟨_, rfl⟩

/-- What stands between brackets is read, if its first text does not begin with the closing one. -/
theorem readBracket_commas {α : Type} {read : List UInt8 → Option (α × List UInt8)} {close : UInt8}
    (hcomma : close ≠ 44) (hline : close ≠ 10) (hdigit : isDigit close = false) {xs : List α}
    {texts : List (List UInt8)} (h : List.Forall₂ (Reads read) xs texts)
    (hhead : ∀ text ∈ texts, ∃ b rest, text = b :: rest ∧ b ≠ close) (rest : List UInt8) :
    readBracket read close (commas texts ++ close :: rest) = some (xs, rest) := by
  unfold readBracket
  cases texts with
  | nil =>
      obtain rfl := List.forall₂_nil_right_iff.1 h
      show (if some close = some close then _ else _) = _
      rw [if_pos rfl]
      rfl
  | cons text texts =>
      obtain ⟨b, front, htext, hb⟩ := hhead text List.mem_cons_self
      obtain ⟨tail, htail⟩ := (@commas_head _ texts _ _) htext
      rw [htail, List.cons_append, List.head?_cons, if_neg fun heq => hb (Option.some.inj heq),
        ← List.cons_append, ← htail]
      refine readMany_commas hcomma hline hdigit h (List.cons_ne_nil _ _) _ ?_ rest
      have hlength := commas_length (text :: texts)
      rw [List.length_append, List.length_cons, List.length_cons, hlength]
      simp only [List.length_cons]
      omega

theorem readValue_succ (fuel : ℕ) (b : UInt8) (raw : List UInt8) :
    readValue (fuel + 1) (b :: raw) =
      (readFrom (readValue fuel) b raw).map fun r => (r.1, skip r.2) := by
  conv_lhs => unfold readValue

/-- The length of a text between others. -/
theorem length_le_commas {text : List UInt8} {texts : List (List UInt8)} (h : text ∈ texts) :
    text.length ≤ (commas texts).length := by
  induction texts with
  | nil => cases h
  | cons first rest ih =>
      rcases List.mem_cons.1 h with rfl | h
      · rw [commas_length, List.map_cons, List.sum_cons]
        omega
      · rw [commas_cons first (List.ne_nil_of_mem h), List.length_append, List.length_cons]
        have hrest := ih h
        omega

theorem word_reads {word : List UInt8} {value : Json} {b : UInt8} {text : List UInt8}
    (hword : word = b :: text) (hquote : b ≠ 34) (harray : b ≠ 91) (hobject : b ≠ 123)
    (hdigit : isDigit b = false)
    (hfound : ∀ rest, readWord (word ++ rest) = some (value, rest)) (fuel : ℕ) :
    Reads (readValue (fuel + 1)) value word := by
  subst hword
  intro rest _
  rw [List.cons_append, readValue_succ, readFrom, if_neg hquote, if_neg harray, if_neg hobject,
    if_neg (by rw [hdigit]; decide), ← List.cons_append, hfound rest]
  rfl

/-- A canonical text is read as the document it was written for. -/
theorem readValue_dumps {j : Json} (hnormal : j.Normal) :
    ∀ {raw : List UInt8}, leaves.dumps j = some raw →
      ∀ fuel, raw.length ≤ fuel + 1 → Reads (readValue (fuel + 1)) j raw := by
  -- the first byte of a canonical text tells its form, so each case follows one branch of the
  -- reader
  induction hnormal with
  | null =>
      intro raw h fuel _
      cases h
      exact word_reads rfl (by decide) (by decide) (by decide) (by decide) (fun _ => rfl) fuel
  | bool value =>
      intro raw h fuel _
      cases value <;> cases h <;>
        exact word_reads rfl (by decide) (by decide) (by decide) (by decide) (fun _ => rfl) fuel
  | number value =>
      intro raw h fuel _ rest hrest
      -- the digits end at `rest`, which starts with none
      have hnumber := readNumber_number h hrest
      obtain ⟨n, -, hraw⟩ := number_eq_some h
      cases hdigits : Nat.toDigits 10 n with
      | nil => exact absurd hdigits Nat.toDigits_ne_nil
      | cons c cs =>
          have hdigit := toDigits_isDigit (n := n) (hdigits ▸ List.mem_cons_self)
          have hlt := isDigit_lt hdigit
          have hisDigit : isDigit (byte c) = true := by
            unfold isDigit
            rw [char_byte (by omega)]
            exact hdigit
          have hne : ∀ b : UInt8, b.toNat < 48 ∨ 57 < b.toNat → byte c ≠ b :=
            fun b hb => byte_ne (by omega) (by omega)
          rw [hraw, hdigits, List.map_cons] at hnumber ⊢
          rw [List.cons_append, readValue_succ, readFrom, if_neg (hne 34 (by decide)),
            if_neg (hne 91 (by decide)), if_neg (hne 123 (by decide)), if_pos hisDigit,
            ← List.cons_append, hnumber]
          rfl
  | string value =>
      intro raw h fuel _ rest _
      have hstring := readString_string h rest
      obtain ⟨-, hraw⟩ := string_eq_some h
      rw [hraw] at hstring ⊢
      show readValue (fuel + 1) (34 :: (value.toList.map byte ++ [34] ++ rest)) = _
      rw [readValue_succ, readFrom, if_pos rfl]
      change readString (34 :: (value.toList.map byte ++ [34] ++ rest)) = _ at hstring
      rw [hstring]
      rfl
  | array elements _ ih =>
      intro raw h fuel hfuel rest _
      obtain ⟨texts, htexts, rfl⟩ := dumps_array.1 h
      simp only [List.length_append, List.length_cons, List.length_nil] at hfuel
      obtain ⟨fuel, rfl⟩ := Nat.exists_eq_add_of_le' (show 1 ≤ fuel by omega)
      -- every element is shorter than its array, so the fuel left is enough for it
      have hread : List.Forall₂ (Reads (readValue (fuel + 1))) elements texts := by
        refine (JsonSchema.forall₂_mem htexts).imp fun e text ⟨he, htext, hdumps⟩ => ?_
        have hlength := length_le_commas htext
        exact ih e he hdumps fuel (by omega)
      have hhead : ∀ text ∈ texts, ∃ b rest, text = b :: rest ∧ b ≠ 93 := by
        intro text htext
        obtain ⟨e, -, hdumps⟩ := JsonSchema.forall₂_exists (List.Forall₂.flip htexts) htext
        exact dumps_head hdumps
      have hbracket := readBracket_commas (by decide) (by decide) (by decide) hread hhead rest
      show readValue (fuel + 1 + 1) (91 :: (commas texts ++ [93] ++ rest)) = _
      rw [readValue_succ, readFrom, if_neg (by decide), if_pos rfl, List.append_assoc,
        List.singleton_append, hbracket]
      rfl
  | object members hnames _ ih =>
      intro raw h fuel hfuel rest _
      obtain ⟨texts, htexts, rfl⟩ := dumps_object.1 h
      rw [dumpsMembers_eq_some] at htexts
      simp only [List.length_append, List.length_cons, List.length_nil] at hfuel
      obtain ⟨fuel, rfl⟩ := Nat.exists_eq_add_of_le' (show 1 ≤ fuel by omega)
      have hread : List.Forall₂ (Reads (readMember (readValue (fuel + 1)))) members texts := by
        refine (JsonSchema.forall₂_mem htexts).imp ?_
        rintro ⟨name, value⟩ _ ⟨hmember, htext, key, text, hkey, hdumps, rfl⟩
        have hlength := length_le_commas htext
        rw [List.length_append, List.length_cons] at hlength
        exact readMember_member hkey (ih _ hmember hdumps fuel (by omega))
      have hhead : ∀ text ∈ texts, ∃ b rest, text = b :: rest ∧ b ≠ 125 := by
        intro text htext
        obtain ⟨member, -, key, value, hkey, -, rfl⟩ :=
          JsonSchema.forall₂_exists (List.Forall₂.flip htexts) htext
        obtain ⟨-, rfl⟩ := string_eq_some hkey
        exact ⟨_, _, rfl, by decide⟩
      have hbracket := readBracket_commas (by decide) (by decide) (by decide) hread hhead rest
      show readValue (fuel + 1 + 1) (123 :: (commas texts ++ [125] ++ rest)) = _
      rw [readValue_succ, readFrom, if_neg (by decide), if_neg (by decide), if_pos rfl,
        List.append_assoc, List.singleton_append, hbracket]
      simp [hnames]

/-! ## What is read is in its normal form -/

theorem readMany_all {α : Type} {read : List UInt8 → Option (α × List UInt8)} {close : UInt8}
    {P : α → Prop} (hread : ∀ raw a rest, read raw = some (a, rest) → P a) :
    ∀ {n : ℕ} {raw : List UInt8} {xs : List α} {rest : List UInt8},
      readMany read close n raw = some (xs, rest) → ∀ x ∈ xs, P x := by
  intro n
  induction n with
  | zero => exact fun h => (nomatch h)
  | succ n ih =>
      intro raw xs rest h
      unfold readMany at h
      obtain ⟨⟨a, tail⟩, ha, h⟩ := Option.bind_eq_some_iff.1 h
      cases tail with
      | nil => cases h
      | cons b tail =>
          change (if b = 44 then _ else _) = _ at h
          split at h
          · obtain ⟨⟨more, tail'⟩, hmore, h⟩ := Option.bind_eq_some_iff.1 h
            cases h
            exact List.forall_mem_cons.2 ⟨hread _ _ _ ha, ih hmore⟩
          · split at h
            · cases h
              exact List.forall_mem_cons.2 ⟨hread _ _ _ ha, fun _ hx => absurd hx List.not_mem_nil⟩
            · cases h

theorem readBracket_all {α : Type} {read : List UInt8 → Option (α × List UInt8)} {close : UInt8}
    {P : α → Prop} (hread : ∀ raw a rest, read raw = some (a, rest) → P a) {raw : List UInt8}
    {xs : List α} {rest : List UInt8} (h : readBracket read close raw = some (xs, rest)) :
    ∀ x ∈ xs, P x := by
  unfold readBracket at h
  split at h
  · cases h
    exact fun _ hx => absurd hx List.not_mem_nil
  · exact readMany_all hread h

theorem readMember_eq_some {read : List UInt8 → Option (Json × List UInt8)} {raw rest : List UInt8}
    {member : String × Json} (h : readMember read raw = some (member, rest)) :
    ∃ raw', read raw' = some (member.2, rest) := by
  obtain ⟨⟨name, tail⟩, -, h⟩ := Option.bind_eq_some_iff.1 h
  cases tail with
  | nil => cases h
  | cons b tail =>
      change (if b = 58 then _ else _) = _ at h
      split at h
      · obtain ⟨⟨value, tail'⟩, hvalue, h⟩ := Option.bind_eq_some_iff.1 h
        cases h
        exact ⟨tail, hvalue⟩
      · cases h

theorem readWord_normal {raw rest : List UInt8} {value : Json}
    (h : readWord raw = some (value, rest)) : value.Normal := by
  obtain ⟨word, hword, h⟩ := List.exists_of_findSome?_eq_some h
  split at h
  · cases h
    simp only [words, List.mem_cons, List.not_mem_nil, or_false] at hword
    rcases hword with rfl | rfl | rfl
    · exact .null
    · exact .bool true
    · exact .bool false
  · cases h

theorem readValue_normal : ∀ {fuel : ℕ} {raw rest : List UInt8} {value : Json},
    readValue fuel raw = some (value, rest) → value.Normal := by
  intro fuel
  induction fuel with
  | zero => exact fun h => (nomatch h)
  | succ fuel ih =>
      intro raw rest value h
      cases raw with
      | nil => cases h
      | cons b raw =>
          rw [readValue_succ] at h
          obtain ⟨found, hfound, hvalue⟩ := Option.map_eq_some_iff.1 h
          cases hvalue
          unfold readFrom at hfound
          split at hfound
          · obtain ⟨text, -, rfl⟩ := Option.map_eq_some_iff.1 hfound
            exact .string text.1
          split at hfound
          · obtain ⟨elements, helements, rfl⟩ := Option.map_eq_some_iff.1 hfound
            exact .array elements.1 (readBracket_all (fun _ _ _ hread => ih hread) helements)
          split at hfound
          · obtain ⟨members, hmembers, rfl⟩ := Option.map_eq_some_iff.1 hfound
            obtain ⟨hmembers, hnames⟩ := Option.filter_eq_some_iff.1 hmembers
            refine .object members.1 (of_decide_eq_true hnames) (readBracket_all ?_ hmembers)
            intro raw member rest hmember
            obtain ⟨raw', hread⟩ := readMember_eq_some hmember
            exact ih hread
          split at hfound
          · cases hfound
            exact .number _
          · exact readWord_normal hfound

/-! ## The libraries -/

theorem loads_eq_some {raw : List UInt8} {value : Json} :
    loads raw = some value ↔ readValue raw.length raw = some (value, []) := by
  unfold loads
  split
  · rename_i value' h
    rw [h]
    simp
  · rename_i hne
    exact ⟨fun h => (nomatch h), fun h => absurd h (hne value)⟩

theorem loads_line {j : Json} {raw : List UInt8} (hnormal : j.Normal)
    (h : leaves.dumps j = some raw) : loads (raw ++ [10]) = some j := by
  rw [loads_eq_some, List.length_append]
  exact readValue_dumps hnormal h raw.length (Nat.le_succ _) [10] (ends_cons (by decide) [])

theorem loads_member {name : String} {key raw : List UInt8} {j : Json}
    (hkey : leaves.string name = some key) (hnormal : j.Normal)
    (h : leaves.dumps j = some raw) :
    loads (123 :: key ++ 58 :: (raw ++ [10]) ++ [125]) = some (.object [(name, j)]) := by
  obtain ⟨-, hquoted⟩ := string_eq_some hkey
  have htext : 123 :: key ++ 58 :: (raw ++ [10]) ++ [125] =
      123 :: (key ++ 58 :: raw ++ [10, 125]) := by simp
  have hmember : readMember (readValue (key.length + raw.length + 3))
      (key ++ 58 :: raw ++ [10, 125]) = some ((name, j), [125]) :=
    readMember_member hkey (readValue_dumps hnormal h _ (by omega)) [10, 125]
      (ends_cons (by decide) _)
  have hbracket : readBracket (readMember (readValue (key.length + raw.length + 3))) 125
      (key ++ 58 :: raw ++ [10, 125]) = some ([(name, j)], []) := by
    unfold readBracket
    have hhead : (key ++ 58 :: raw ++ [10, 125]).head? ≠ some 125 := by
      rw [hquoted]
      simp
    rw [if_neg hhead, List.length_append, List.length_append, List.length_cons]
    show readMany _ 125 (_ + 1) _ = _
    unfold readMany
    rw [hmember]
    rfl
  rw [loads_eq_some, htext, List.length_cons, readValue_succ, readFrom, if_neg (by decide),
    if_neg (by decide), if_pos rfl]
  have hlength : (key ++ 58 :: raw ++ [10, 125]).length = key.length + raw.length + 3 := by
    simp
    omega
  rw [hlength, hbracket]
  have hnames : Json.NamesAscend [name] := List.pairwise_singleton _ _
  simp [hnames, skip]

/-- The laws of a serializer and a parser. -/
def asciiText : CanonicalText where
  toJsonLeaves := leaves
  loads := loads
  number_plain := number_plain
  string_plain := string_plain
  string_quoted := by
    intro value raw h
    obtain ⟨-, rfl⟩ := string_eq_some h
    simp
  loads_normal := fun raw j h => readValue_normal (loads_eq_some.1 h)
  loads_line := fun j raw hnormal h => loads_line hnormal h
  loads_member := fun name key j raw hkey hnormal h => loads_member hkey hnormal h

/-- The order of ASCII names is the order of their UTF-16 units. -/
theorem utf16_lt {a b : String} (ha : ∀ c ∈ a.toList, c.toNat < 128)
    (hb : ∀ c ∈ b.toList, c.toNat < 128) (h : a < b) : Json.utf16 a < Json.utf16 b := by
  have hunits : ∀ {cs : List Char}, (∀ c ∈ cs, c.toNat < 128) →
      cs.flatMap Json.utf16Char = cs.map Char.toNat := by
    intro cs hcs
    induction cs with
    | nil => rfl
    | cons c cs ih =>
        have hc := hcs c List.mem_cons_self
        rw [List.flatMap_cons, List.map_cons, ih fun d hd => hcs d (List.mem_cons_of_mem c hd),
          Json.utf16Char, if_pos (by omega)]
        rfl
  unfold Json.utf16
  rw [hunits ha, hunits hb]
  exact List.map_lt (fun _ _ hlt => hlt) (String.lt_iff.1 h)

theorem normal_of_ordered {j : Json} (h : j.Ordered) : j.Normal := by
  induction h with
  | null => exact .null
  | bool value => exact .bool value
  | number value => exact .number value
  | string value => exact .string value
  | array elements _ ih => exact .array elements ih
  | object members hnames _ ih =>
      refine .object members ?_ ih
      exact hnames.2.imp_of_mem fun ha hb hlt => utf16_lt (hnames.1 _ ha) (hnames.1 _ hb) hlt

/-- The law of a serializer that ends its texts with a line feed. -/
def asciiJson : JsonText where
  dumps j := (leaves.dumps j).map fun raw => raw ++ [10]
  loads := loads
  loads_dumps := by
    intro j raw hordered h
    obtain ⟨text, htext, rfl⟩ := Option.map_eq_some_iff.1 h
    exact loads_line (normal_of_ordered hordered) htext

end StaticHostAgent.Library.AsciiJson
