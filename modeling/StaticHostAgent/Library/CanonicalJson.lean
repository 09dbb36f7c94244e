import StaticHostAgent.Library.JsonSchema
import StaticHostAgent.Library.Lines
import Mathlib.Data.List.Lex

/-!
# The syntax of canonical JSON texts

RFC 8785 writes arrays and objects without whitespace and orders the members of an object by the
UTF-16 units of their names. A document is `Normal` when its members stand in that order, which is
how a mapping is represented here. The texts of numbers and of strings, and the parser, are those of
a library: `CanonicalText` holds them with the laws that a program relies on.
-/

set_option autoImplicit false

namespace StaticHostAgent.Library

namespace Json

def utf16Char (c : Char) : List Nat :=
  if c.toNat < 0x10000 then [c.toNat]
  else [0xD800 + (c.toNat - 0x10000) / 0x400, 0xDC00 + (c.toNat - 0x10000) % 0x400]

/-- The UTF-16 units of a name. -/
def utf16 (name : String) : List Nat := name.toList.flatMap utf16Char

/-- Different names in the canonical order. -/
def NamesAscend (names : List String) : Prop := names.Pairwise fun a b => utf16 a < utf16 b

instance (names : List String) : Decidable (NamesAscend names) := by
  unfold NamesAscend
  infer_instance

/-- The members of every object stand in the canonical order. -/
inductive Normal : Json → Prop where
  | null : Normal .null
  | bool (value : Bool) : Normal (.bool value)
  | number (value : ℚ) : Normal (.number value)
  | string (value : String) : Normal (.string value)
  | array (elements : List Json) (h : ∀ e ∈ elements, Normal e) : Normal (.array elements)
  | object (members : List (String × Json)) (hnames : NamesAscend (members.map Prod.fst))
      (h : ∀ member ∈ members, Normal member.2) : Normal (.object members)

/-- `document.get(name)` -/
def get (document : Json) (name : String) : Json := (document.members.lookup name).getD .null

theorem NamesAscend.nodup {names : List String} (h : NamesAscend names) : names.Nodup :=
  List.Pairwise.imp (fun {a b} (hlt : utf16 a < utf16 b) (heq : a = b) =>
    lt_irrefl (utf16 b) (heq ▸ hlt)) h

/-- A set of names has one canonical order. -/
theorem NamesAscend.eq {names names' : List String} (h : NamesAscend names)
    (h' : NamesAscend names') (hmem : ∀ name, name ∈ names ↔ name ∈ names') : names = names' := by
  have hperm : names.Perm names' := (List.perm_ext_iff_of_nodup h.nodup h'.nodup).2 hmem
  exact hperm.eq_of_pairwise (fun a b _ _ hab hba => (lt_asymm hab hba).elim) h h'

theorem lookup_of_mem {members : List (String × Json)} (hnodup : (members.map Prod.fst).Nodup)
    {member : String × Json} (hmem : member ∈ members) :
    members.lookup member.1 = some member.2 := by
  induction members with
  | nil => cases hmem
  | cons first rest ih =>
      rw [List.map_cons, List.nodup_cons] at hnodup
      rw [List.lookup_cons]
      rcases List.mem_cons.1 hmem with rfl | hrest
      · rw [beq_self_eq_true]
      · have hne : member.1 ≠ first.1 := fun heq =>
          hnodup.1 (heq ▸ List.mem_map_of_mem hrest)
        rw [beq_eq_false_iff_ne.2 hne]
        exact ih hnodup.2 hrest

/-- The members of an object are told by their names. -/
theorem members_eq_map {members : List (String × Json)} (hnodup : (members.map Prod.fst).Nodup) :
    members = (members.map Prod.fst).map fun name => (name, (Json.object members).get name) := by
  rw [List.map_map]
  conv_lhs => rw [← List.map_id members]
  refine List.map_congr_left fun member hmem => ?_
  show member = (member.1, (members.lookup member.1).getD .null)
  rw [lookup_of_mem hnodup hmem]
  rfl

theorem Normal.get {document : Json} (h : document.Normal) (name : String) :
    (document.get name).Normal := by
  unfold Json.get
  cases hlookup : document.members.lookup name with
  | none => exact Normal.null
  | some value =>
      cases h with
      | object members _ hmembers =>
          obtain ⟨pre, suffix, hsplit, -⟩ := List.lookup_eq_some_iff.1 hlookup
          have hmem : (name, value) ∈ members := by
            rw [show members = pre ++ (name, value) :: suffix from hsplit]
            exact List.mem_append_right _ List.mem_cons_self
          exact hmembers _ hmem
      | _ => cases hlookup

end Json

/-! ## Texts -/

/-- The canonical texts of numbers and of strings, where they have one. -/
structure JsonLeaves where
  number : ℚ → Option (List UInt8)
  string : String → Option (List UInt8)

namespace JsonLeaves

/-- Texts between commas. -/
def commas : List (List UInt8) → List UInt8
  | [] => []
  | [text] => text
  | text :: rest => text ++ 44 :: commas rest

variable (t : JsonLeaves)

mutual

/-- The canonical text of a document in the canonical order. -/
def dumps : Json → Option (List UInt8)
  | .null => some [110, 117, 108, 108]
  | .bool true => some [116, 114, 117, 101]
  | .bool false => some [102, 97, 108, 115, 101]
  | .number value => t.number value
  | .string value => t.string value
  | .array elements => (dumpsAll elements).map fun texts => 91 :: commas texts ++ [93]
  | .object members => (dumpsMembers members).map fun texts => 123 :: commas texts ++ [125]

def dumpsAll : List Json → Option (List (List UInt8))
  | [] => some []
  | e :: rest => do
      let text ← dumps e
      let texts ← dumpsAll rest
      pure (text :: texts)

def dumpsMembers : List (String × Json) → Option (List (List UInt8))
  | [] => some []
  | (name, value) :: rest => do
      let key ← t.string name
      let text ← dumps value
      let texts ← dumpsMembers rest
      pure ((key ++ 58 :: text) :: texts)

end

variable {t}

theorem dumpsAll_eq_some {elements : List Json} :
    ∀ {texts : List (List UInt8)}, t.dumpsAll elements = some texts ↔
      List.Forall₂ (fun e text => t.dumps e = some text) elements texts := by
  induction elements with
  | nil =>
      intro texts
      rw [dumpsAll, Option.some_inj, List.forall₂_nil_left_iff]
      exact eq_comm
  | cons e rest ih =>
      intro texts
      rw [dumpsAll, List.forall₂_cons_left_iff]
      simp only [Option.bind_eq_bind, Option.bind_eq_some_iff, Option.pure_def, Option.some_inj, ih]
      constructor
      · rintro ⟨text, htext, texts, htexts, rfl⟩
        exact ⟨text, texts, htext, htexts, rfl⟩
      · rintro ⟨text, texts, htext, htexts, rfl⟩
        exact ⟨text, htext, texts, htexts, rfl⟩

theorem dumpsMembers_eq_some {members : List (String × Json)} :
    ∀ {texts : List (List UInt8)}, t.dumpsMembers members = some texts ↔
      List.Forall₂ (fun member text => ∃ key value, t.string member.1 = some key ∧
        t.dumps member.2 = some value ∧ text = key ++ 58 :: value) members texts := by
  induction members with
  | nil =>
      intro texts
      rw [dumpsMembers, Option.some_inj, List.forall₂_nil_left_iff]
      exact eq_comm
  | cons member rest ih =>
      obtain ⟨name, value⟩ := member
      intro texts
      rw [dumpsMembers, List.forall₂_cons_left_iff]
      simp only [Option.bind_eq_bind, Option.bind_eq_some_iff, Option.pure_def, Option.some_inj, ih]
      constructor
      · rintro ⟨key, hkey, text, htext, texts, htexts, rfl⟩
        exact ⟨_, texts, ⟨key, text, hkey, htext, rfl⟩, htexts, rfl⟩
      · rintro ⟨_, texts, ⟨key, text, hkey, htext, rfl⟩, htexts, rfl⟩
        exact ⟨key, hkey, text, htext, texts, htexts, rfl⟩

theorem dumps_array {elements : List Json} {raw : List UInt8} :
    t.dumps (.array elements) = some raw ↔ ∃ texts,
      List.Forall₂ (fun e text => t.dumps e = some text) elements texts ∧
        raw = 91 :: commas texts ++ [93] := by
  rw [dumps, Option.map_eq_some_iff]
  simp only [dumpsAll_eq_some]
  exact ⟨fun ⟨texts, htexts, h⟩ => ⟨texts, htexts, h.symm⟩,
    fun ⟨texts, htexts, h⟩ => ⟨texts, htexts, h.symm⟩⟩

theorem dumps_object {members : List (String × Json)} {raw : List UInt8} :
    t.dumps (.object members) = some raw ↔ ∃ texts,
      t.dumpsMembers members = some texts ∧ raw = 123 :: commas texts ++ [125] := by
  rw [dumps, Option.map_eq_some_iff]
  exact ⟨fun ⟨texts, htexts, h⟩ => ⟨texts, htexts, h.symm⟩,
    fun ⟨texts, htexts, h⟩ => ⟨texts, htexts, h.symm⟩⟩

theorem commas_cons (first : List UInt8) {rest : List (List UInt8)} (h : rest ≠ []) :
    commas (first :: rest) = first ++ 44 :: commas rest := by
  cases rest with
  | nil => exact absurd rfl h
  | cons second rest => rfl

/-- The texts with one comma between each two. -/
theorem commas_length (texts : List (List UInt8)) :
    (commas texts).length = (texts.map List.length).sum + (texts.length - 1) := by
  induction texts with
  | nil => rfl
  | cons first rest ih =>
      by_cases hrest : rest = []
      · rw [hrest]
        simp [commas]
      · have hpos := List.length_pos_iff.2 hrest
        rw [commas_cons first hrest, List.length_append, List.length_cons, ih, List.map_cons,
          List.sum_cons, List.length_cons]
        omega

/-! ## Lines -/

/-- Neither a line feed nor a carriage return. -/
def Plain (raw : List UInt8) : Prop := 10 ∉ raw ∧ 13 ∉ raw

theorem Plain.append {raw raw' : List UInt8} (h : Plain raw) (h' : Plain raw') :
    Plain (raw ++ raw') :=
  ⟨fun hmem => (List.mem_append.1 hmem).elim h.1 h'.1,
    fun hmem => (List.mem_append.1 hmem).elim h.2 h'.2⟩

theorem Plain.cons {b : UInt8} {raw : List UInt8} (hlf : b ≠ 10) (hcr : b ≠ 13) (h : Plain raw) :
    Plain (b :: raw) :=
  ⟨fun hmem => (List.mem_cons.1 hmem).elim hlf.symm h.1,
    fun hmem => (List.mem_cons.1 hmem).elim hcr.symm h.2⟩

theorem Plain.line {raw : List UInt8} (h : Plain raw) : CleanLine (raw ++ [10]) :=
  ⟨raw, rfl, h.1, h.2⟩

theorem plain_nil : Plain [] := ⟨List.not_mem_nil, List.not_mem_nil⟩

theorem plain_commas {texts : List (List UInt8)} (h : ∀ text ∈ texts, Plain text) :
    Plain (commas texts) := by
  induction texts with
  | nil => exact plain_nil
  | cons first rest ih =>
      rw [List.forall_mem_cons] at h
      cases rest with
      | nil => exact h.1
      | cons second rest => exact h.1.append (Plain.cons (by decide) (by decide) (ih h.2))

theorem plain_bracketed {first last : UInt8} {texts : List (List UInt8)}
    (hfirst : first ≠ 10 ∧ first ≠ 13) (hlast : last ≠ 10 ∧ last ≠ 13)
    (h : ∀ text ∈ texts, Plain text) : Plain (first :: commas texts ++ [last]) :=
  Plain.cons hfirst.1 hfirst.2
    ((plain_commas h).append (Plain.cons hlast.1 hlast.2 plain_nil))

end JsonLeaves

/-- A serializer and a parser. The parser gives documents in their normal form, and reads a
canonical text as the document it was written for; whitespace around it does not matter. -/
structure CanonicalText extends JsonLeaves where
  loads : List UInt8 → Option Json
  number_plain : ∀ value raw, number value = some raw → JsonLeaves.Plain raw
  string_plain : ∀ value raw, string value = some raw → JsonLeaves.Plain raw
  /-- A text stands between quotes. -/
  string_quoted : ∀ value raw, string value = some raw → 2 ≤ raw.length
  loads_normal : ∀ raw j, loads raw = some j → j.Normal
  loads_line : ∀ j raw, j.Normal → toJsonLeaves.dumps j = some raw → loads (raw ++ [10]) = some j
  loads_member : ∀ name key j raw, string name = some key → j.Normal →
    toJsonLeaves.dumps j = some raw →
      loads (123 :: key ++ 58 :: (raw ++ [10]) ++ [125]) = some (.object [(name, j)])

namespace CanonicalText

open JsonLeaves

variable {t : CanonicalText}

/-- A canonical text is one line. -/
theorem dumps_plain : ∀ (j : Json) {raw : List UInt8}, t.dumps j = some raw → Plain raw
  | .null, raw, h | .bool true, raw, h | .bool false, raw, h => by
      obtain rfl := Option.some.inj h
      exact ⟨by decide, by decide⟩
  | .number value, raw, h => t.number_plain value raw h
  | .string value, raw, h => t.string_plain value raw h
  | .array elements, raw, h => by
      obtain ⟨texts, htexts, rfl⟩ := dumps_array.1 h
      refine plain_bracketed (by decide) (by decide) fun text htext => ?_
      obtain ⟨e, he, hdumps⟩ := JsonSchema.forall₂_exists (List.Forall₂.flip htexts) htext
      have := List.sizeOf_lt_of_mem he
      exact dumps_plain e hdumps
  | .object members, raw, h => by
      obtain ⟨texts, htexts, rfl⟩ := dumps_object.1 h
      refine plain_bracketed (by decide) (by decide) fun text htext => ?_
      obtain ⟨member, hmember, key, value, hkey, hdumps, rfl⟩ :=
        JsonSchema.forall₂_exists (List.Forall₂.flip (dumpsMembers_eq_some.1 htexts)) htext
      have hmem := List.sizeOf_lt_of_mem hmember
      have hvalue : sizeOf member.2 < sizeOf member := by
        obtain ⟨name, value⟩ := member
        show sizeOf value < 1 + sizeOf name + sizeOf value
        omega
      exact (t.string_plain member.1 key hkey).append
        (Plain.cons (by decide) (by decide) (dumps_plain member.2 hdumps))
termination_by j => sizeOf j

end CanonicalText

end StaticHostAgent.Library
