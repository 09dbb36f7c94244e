import StaticHostAgent.Contracts.Identity
import StaticHostAgent.Library.Characters
import StaticHostAgent.Library.FixedDigits

/-!
# Texts of identities and origins

The lower-case hexadecimal digits, the texts that identities and canonical
origins are written as, and the patterns of identity texts. An identity is kept by its fields and an origin by its
number, so their texts are functions of these.
-/

set_option autoImplicit false

namespace StaticHostAgent.Contracts

open Library

def hexDigits : List Char := "0123456789abcdef".toList

def hexDigit (d : Nat) : Char := hexDigits.getD d '0'

theorem hexDigit_mem {d : Nat} (hd : d < 16) : hexDigit d ∈ hexDigits := by
  have hall : ∀ d < 16, hexDigit d ∈ hexDigits := by decide
  exact hall d hd

/-- A number of 128 bits in hexadecimal digits. -/
def hexNumber (number : Nat) : List Char := (fixedDigits 16 32 number).map hexDigit

theorem hexNumber_length {number : Nat} (hnumber : number < 2 ^ 128) :
    (hexNumber number).length = 32 := by
  rw [hexNumber, List.length_map, fixedDigits_length (by omega) (by omega)]

theorem hexNumber_mem {number : Nat} {c : Char} (hc : c ∈ hexNumber number) : c ∈ hexDigits := by
  obtain ⟨d, hd, rfl⟩ := List.mem_map.mp hc
  exact hexDigit_mem (lt_of_mem_fixedDigits (by omega) hd)

/-- The digits are read back from their characters. -/
theorem idxOf_hexDigit {digits : List Nat} (h : ∀ d ∈ digits, d < 16) :
    (digits.map hexDigit).map (fun c => hexDigits.idxOf c) = digits := by
  rw [List.map_map]
  conv_rhs => rw [← List.map_id digits]
  refine List.map_congr_left ?_
  intro d hd
  have hall : ∀ d < 16, hexDigits.idxOf (hexDigit d) = d := by decide
  exact hall d (h d hd)

/-- Numbers of one width are told apart by their digits. -/
theorem fixedHex_injective {width m n : Nat} (hm : m < 16 ^ width) (hn : n < 16 ^ width)
    (h : (fixedDigits 16 width m).map hexDigit = (fixedDigits 16 width n).map hexDigit) :
    m = n := by
  have hdigits : fixedDigits 16 width m = fixedDigits 16 width n := by
    have hread : ∀ k, ((fixedDigits 16 width k).map hexDigit).map (fun c => hexDigits.idxOf c) =
        fixedDigits 16 width k := fun k =>
      idxOf_hexDigit fun d hd => lt_of_mem_fixedDigits (by omega) hd
    rw [← hread m, h, hread n]
  rw [← ofFixedDigits_fixedDigits (by omega : 1 < 16) hm, hdigits,
    ofFixedDigits_fixedDigits (by omega) hn]

theorem hexNumber_injective {m n : Nat} (hm : m < 2 ^ 128) (hn : n < 2 ^ 128)
    (h : hexNumber m = hexNumber n) : m = n := by
  have hwidth : (2 : Nat) ^ 128 = 16 ^ 32 := by omega
  rw [hwidth] at hm hn
  exact fixedHex_injective hm hn h

/-- `str(uuid)` of a number of 128 bits. -/
def uuidText (number : Nat) : List Char :=
  ['-'].intercalate (splitFields [8, 4, 4, 4, 12] (hexNumber number))

/-- The text of an identity. -/
def Uuid7.text (id : Uuid7) : String := String.ofList (uuidText id.packed)

theorem Uuid7.packed_lt (id : Uuid7) : id.packed < 2 ^ 128 := by
  obtain ⟨⟨a, ha⟩, ⟨b, hb⟩, ⟨c, hc⟩⟩ := id
  simp only [Uuid7.packed]
  omega

theorem filter_intercalate {fields : List (List Char)}
    (h : ∀ field ∈ fields, ∀ c ∈ field, c ≠ '-') :
    (['-'].intercalate fields).filter (· ≠ '-') = fields.flatten := by
  induction fields with
  | nil => rfl
  | cons field fields ih =>
      rw [List.forall_mem_cons] at h
      have hfield : field.filter (· ≠ '-') = field :=
        List.filter_eq_self.2 fun c hc => decide_eq_true (h.1 c hc)
      cases fields with
      | nil => simpa [List.intercalate] using hfield
      | cons next rest =>
          have hstep : ['-'].intercalate (field :: next :: rest) =
              field ++ '-' :: ['-'].intercalate (next :: rest) := by
            simp [List.intercalate, List.intersperse]
          rw [hstep, List.filter_append, hfield, List.filter_cons_of_neg (by decide), ih h.2]
          rfl

/-- Without its hyphens the text of a number is its digits. -/
theorem uuidText_filter {number : Nat} (hnumber : number < 2 ^ 128) :
    (uuidText number).filter (· ≠ '-') = hexNumber number := by
  have hflat := flatten_splitFields [8, 4, 4, 4, 12] (hexNumber number) (hexNumber_length hnumber)
  unfold uuidText
  rw [filter_intercalate, hflat]
  intro field hfield c hc
  have hmem : c ∈ hexNumber number := by
    rw [← hflat]
    exact List.mem_flatten.2 ⟨field, hfield, hc⟩
  have hdigit := hexNumber_mem hmem
  have hall : ∀ c ∈ hexDigits, c ≠ '-' := by decide
  exact hall c hdigit

theorem Uuid7.text_injective {a b : Uuid7} (h : a.text = b.text) : a = b := by
  have htext : uuidText a.packed = uuidText b.packed := String.ofList_injective h
  have hnumber : hexNumber a.packed = hexNumber b.packed := by
    rw [← uuidText_filter a.packed_lt, htext, uuidText_filter b.packed_lt]
  exact Uuid7.packed_injective (hexNumber_injective a.packed_lt b.packed_lt hnumber)

/-- The text of an identity starts with a hexadecimal digit. -/
theorem Uuid7.text_head (id : Uuid7) : ∃ c rest, id.text.toList = c :: rest ∧ c ∈ hexDigits := by
  have hlength := hexNumber_length id.packed_lt
  unfold Uuid7.text uuidText
  rw [String.toList_ofList]
  cases hnumber : hexNumber id.packed with
  | nil =>
      rw [hnumber] at hlength
      cases hlength
  | cons c rest =>
      refine ⟨c, _, rfl, ?_⟩
      exact hexNumber_mem (by rw [hnumber]; exact List.mem_cons_self)
/-- The host name of a canonical origin. -/
def CanonicalOrigin.text (origin : CanonicalOrigin) : String :=
  String.ofList (['t', '-'] ++ hexNumber origin.label ++ ".lowerduckpond.com".toList)

/-- The text of a SHA-256 value. -/
def sha256Text (value : Sha256) : String :=
  String.ofList ((fixedDigits 16 64 value.val).map hexDigit)

theorem sha256Text_injective {a b : Sha256} (h : sha256Text a = sha256Text b) : a = b := by
  have ha := a.isLt
  have hb := b.isLt
  have hdigits := String.ofList_injective h
  exact Fin.ext (fixedHex_injective (by omega) (by omega) hdigits)

/-! ## Patterns -/

/-- `re.fullmatch` of a pattern with one class for each character. -/
def fullmatch (classes : List (Char → Bool)) (text : String) : Bool :=
  decide (text.toList.length = classes.length) &&
    (List.zipWith (fun accepts c => accepts c) classes text.toList).all id

/-- A text matches one class repeated exactly if it has that length and its characters are of the
class. -/
theorem fullmatch_replicate {accepts : Char → Bool} {text : String} {n : Nat} :
    fullmatch (List.replicate n accepts) text = true ↔
      text.toList.length = n ∧ ∀ c ∈ text.toList, accepts c = true := by
  have hzip : ∀ (n : Nat) (cs : List Char), cs.length = n →
      ((List.zipWith (fun accepts c => accepts c) (List.replicate n accepts) cs).all id = true ↔
        ∀ c ∈ cs, accepts c = true) := by
    intro n cs hn
    induction cs generalizing n with
    | nil => simp
    | cons c cs ih =>
        obtain rfl : n = cs.length + 1 := hn.symm
        rw [List.replicate_succ, List.zipWith_cons_cons, List.all_cons, id_eq, Bool.and_eq_true,
          ih _ rfl, List.forall_mem_cons]
  unfold fullmatch
  rw [Bool.and_eq_true, decide_eq_true_eq, List.length_replicate]
  exact and_congr_right fun hlength => hzip n _ hlength

def hexClass (c : Char) : Bool := decide (c ∈ hexDigits)

/-- The UUIDv7 pattern; `uuid.UUID` accepts each of its texts and writes it the same. -/
def isUuid7 (text : String) : Bool :=
  fullmatch (List.replicate 8 hexClass ++ [(· == '-')] ++ List.replicate 4 hexClass ++
    [(· == '-'), (· == '7')] ++ List.replicate 3 hexClass ++
    [(· == '-'), fun c => decide (c ∈ ['8', '9', 'a', 'b'])] ++ List.replicate 3 hexClass ++
    [(· == '-')] ++ List.replicate 12 hexClass) text

def isSha256 (text : String) : Bool := fullmatch (List.replicate 64 hexClass) text

theorem isSha256_sha256Text (value : Sha256) : isSha256 (sha256Text value) = true := by
  refine fullmatch_replicate.2 ⟨?_, fun c hc => ?_⟩
  · rw [sha256Text, String.toList_ofList, List.length_map,
      fixedDigits_length (by decide) (by have := value.isLt; omega)]
  · rw [sha256Text, String.toList_ofList] at hc
    obtain ⟨d, hd, rfl⟩ := List.mem_map.1 hc
    exact decide_eq_true (hexDigit_mem (lt_of_mem_fixedDigits (by decide) hd))

end StaticHostAgent.Contracts
