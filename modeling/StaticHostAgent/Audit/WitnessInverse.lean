import StaticHostAgent.Audit.Witness
import StaticHostAgent.Contracts.TableEncoding
import StaticHostAgent.Library.AsciiJson

/-!
# Segments and witnesses are inverse

The step of the inspection and the step of the expansion read the same entry: `inspectLine_expands`
and `expandRow_inspects` carry one to the other, and the folds follow. `expandWitness_iff` puts them
together, and `segments_and_witnesses_inverse` says it of the cached functions.
-/

set_option autoImplicit false

namespace StaticHostAgent.Audit.Witness

open Library Library.JsonLeaves Contracts Host

/-! ## Rows and entries -/

/-- The members of an entry in their canonical order. -/
def entryNames (evidence : Bool) : List String :=
  ["apiVersion", "correlationId"] ++ (if evidence then ["deletionEvidence"] else []) ++
    ["kind", "operation", "operatorPrincipal", "previousEntryDigest", "resultDigest",
      "resultStatus", "sequence", "tenantId", "timestamp"]

theorem entryNames_ascend (evidence : Bool) : Json.NamesAscend (entryNames evidence) := by
  cases evidence <;> decide

theorem isText_iff {value : Json} {text : String} :
    isText value text = true ↔ value = .string text := by
  cases value <;> simp [isText]

section Rows

variable {h : WitnessHost} {members : List (String × Json)}

/-- What the contract says about the names and the constants of an entry. -/
structure EntryShape (members : List (String × Json)) : Prop where
  allowed : ∀ name ∈ members.map Prod.fst, name = "deletionEvidence" ∨ name ∈ requiredMembers
  required : ∀ name ∈ requiredMembers, name ∈ members.map Prod.fst
  apiVersion : (Json.object members).get "apiVersion" = .string apiVersion
  kind : (Json.object members).get "kind" = .string "AuditEntry"
  evidence : "deletionEvidence" ∈ members.map Prod.fst →
    isObject ((Json.object members).get "deletionEvidence") = true

theorem acceptsEntry_shape (haccepts : acceptsEntry h members = true) : EntryShape members := by
  simp only [acceptsEntry, Bool.and_eq_true, Bool.or_eq_true, List.all_eq_true,
    decide_eq_true_eq, List.mem_cons, isText_iff] at haccepts
  obtain ⟨⟨⟨⟨⟨⟨hallowed, hrequired⟩, hversion⟩, hkind⟩, -⟩, hevidence⟩, -⟩ := haccepts
  exact ⟨hallowed, fun name hname => hrequired name (by simpa [requiredMembers] using hname),
    hversion, hkind, fun hmem => hevidence.resolve_left fun hnot => hnot hmem⟩

/-- The names of an entry are known up to the deletion evidence. -/
theorem EntryShape.names (hshape : EntryShape members)
    (hnames : Json.NamesAscend (members.map Prod.fst)) :
    members.map Prod.fst =
      entryNames (decide ("deletionEvidence" ∈ members.map Prod.fst)) := by
  refine hnames.eq (entryNames_ascend _) fun name => ?_
  by_cases hevidence : "deletionEvidence" ∈ members.map Prod.fst
  · rw [decide_eq_true hevidence]
    constructor
    · intro hmem
      rcases hshape.allowed name hmem with rfl | hrequired
      · decide
      · exact (by decide : ∀ n ∈ requiredMembers, n ∈ entryNames true) name hrequired
    · intro hmem
      rcases (by decide : ∀ n ∈ entryNames true, n = "deletionEvidence" ∨ n ∈ requiredMembers)
        name hmem with rfl | hrequired
      · exact hevidence
      · exact hshape.required name hrequired
  · rw [decide_eq_false hevidence]
    constructor
    · intro hmem
      rcases hshape.allowed name hmem with rfl | hrequired
      · exact absurd hmem hevidence
      · exact (by decide : ∀ n ∈ requiredMembers, n ∈ entryNames false) name hrequired
    · intro hmem
      exact hshape.required name
        ((by decide : ∀ n ∈ entryNames false, n ∈ requiredMembers) name hmem)

theorem get_of_not_mem {name : String} (hnot : name ∉ members.map Prod.fst) :
    (Json.object members).get name = .null := by
  unfold Json.get
  rw [show (Json.object members).members.lookup name = none from
    List.lookup_eq_none_iff.2 fun member hmem => bne_iff_ne.2 fun heq =>
      hnot (List.mem_map.2 ⟨member, hmem, heq.symm⟩)]
  rfl

/-- An entry is regained from its row. -/
theorem documentOf_rowOf (haccepts : acceptsEntry h members = true)
    (hnormal : (Json.object members).Normal) :
    documentOf (.array (rowOf (.object members))) = some (.object members) := by
  have hshape := acceptsEntry_shape haccepts
  have hnames : Json.NamesAscend (members.map Prod.fst) := by
    cases hnormal with
    | object _ hnames _ => exact hnames
  have hmembers := Json.members_eq_map hnames.nodup
  rw [hshape.names hnames] at hmembers
  generalize hdocument : Json.object members = document at *
  by_cases hevidence : "deletionEvidence" ∈ members.map Prod.fst
  · have hobject := hshape.evidence hevidence
    rw [hdocument] at hobject
    have hnull : isNull (document.get "deletionEvidence") = false := by
      cases hvalue : document.get "deletionEvidence" with
      | object _ => rfl
      | _ => rw [hvalue] at hobject; cases hobject
    have hversion := hshape.apiVersion
    have hkind := hshape.kind
    rw [hdocument] at hversion hkind
    simp only [decide_eq_true hevidence, entryNames, if_true, List.cons_append, List.nil_append,
      List.map_cons, List.map_nil, hversion, hkind] at hmembers
    simp only [rowOf, rowFields, documentOf, List.map_cons, List.map_nil, hnull, List.cons_append,
      List.nil_append, Bool.false_eq_true, if_false]
    exact congrArg some ((congrArg Json.object hmembers).symm.trans hdocument)
  · have hnull : document.get "deletionEvidence" = .null := by
      rw [← hdocument]
      exact get_of_not_mem hevidence
    have hversion := hshape.apiVersion
    have hkind := hshape.kind
    rw [hdocument] at hversion hkind
    simp only [decide_eq_false hevidence, entryNames, Bool.false_eq_true, if_false,
      List.cons_append, List.nil_append, List.map_cons, List.map_nil, hversion, hkind] at hmembers
    simp only [rowOf, rowFields, documentOf, List.map_cons, List.map_nil, hnull, isNull, if_true,
      List.cons_append, List.nil_append]
    exact congrArg some ((congrArg Json.object hmembers).symm.trans hdocument)

/-- A row is regained from its entry. -/
theorem rowOf_documentOf {row : List Json} {document : Json}
    (hdocument : documentOf (.array row) = some document) : rowOf document = row := by
  unfold documentOf at hdocument
  split at hdocument
  · rename_i sequence previous timestamp principal operation tenant correlation resultDigest status
      evidence heq
    rw [Json.array.inj heq]
    obtain rfl := Option.some.inj hdocument
    cases hnull : isNull evidence with
    | false => rfl
    | true =>
        have hevidence : evidence = .null := by
          cases evidence with
          | null => rfl
          | _ => cases hnull
        rw [hevidence]
        rfl
  · cases hdocument

theorem documentOf_object {row document : Json} (hdocument : documentOf row = some document) :
    ∃ members, document = .object members := by
  unfold documentOf at hdocument
  split at hdocument
  · exact ⟨_, (Option.some.inj hdocument).symm⟩
  · cases hdocument

theorem documentOf_array {row document : Json} (hdocument : documentOf row = some document) :
    ∃ values, row = .array values := by
  unfold documentOf at hdocument
  split at hdocument
  · exact ⟨_, rfl⟩
  · cases hdocument

/-- The entry of normal values is normal. -/
theorem documentOf_normal {row : List Json} {document : Json}
    (hdocument : documentOf (.array row) = some document) (hrow : ∀ value ∈ row, value.Normal) :
    document.Normal := by
  unfold documentOf at hdocument
  split at hdocument
  · rename_i sequence previous timestamp principal operation tenant correlation resultDigest status
      evidence heq
    rw [Json.array.inj heq] at hrow
    obtain rfl := Option.some.inj hdocument
    simp only [List.forall_mem_cons] at hrow
    obtain ⟨h1, h2, h3, h4, h5, h6, h7, h8, h9, h10, -⟩ := hrow
    cases isNull evidence with
    | false =>
        refine Json.Normal.object _ (entryNames_ascend true) ?_
        simp only [Bool.false_eq_true, if_false, List.cons_append, List.nil_append,
          List.forall_mem_cons]
        exact ⟨.string _, h7, h10, .string _, h5, h4, h2, h8, h9, h1, h6, h3,
          fun _ hmem => absurd hmem List.not_mem_nil⟩
    | true =>
        refine Json.Normal.object _ (entryNames_ascend false) ?_
        simp only [if_true, List.cons_append, List.nil_append, List.forall_mem_cons]
        exact ⟨.string _, h7, .string _, h5, h4, h2, h8, h9, h1, h6, h3,
          fun _ hmem => absurd hmem List.not_mem_nil⟩
  · cases hdocument

/-! ## Lengths -/

/-- The length of the text of a document that has one. -/
def textSize (h : WitnessHost) (document : Json) : Nat :=
  ((h.dumps document).map List.length).getD 0

theorem sum_textSize {elements : List Json} {texts : List Bytes}
    (htexts : List.Forall₂ (fun e text => h.dumps e = some text) elements texts) :
    (texts.map List.length).sum = (elements.map (textSize h)).sum := by
  induction htexts with
  | nil => rfl
  | cons htext _ ih =>
      simp only [List.map_cons, List.sum_cons, ih, textSize, htext, Option.map_some,
        Option.getD_some]

/-- A member costs its value, a colon and at least two quotes. -/
theorem sum_members {texts : List Bytes} (htexts : h.dumpsMembers members = some texts) :
    texts.length = members.length ∧
      (members.map fun member => textSize h member.2).sum + 3 * members.length ≤
        (texts.map List.length).sum := by
  rw [dumpsMembers_eq_some] at htexts
  induction htexts with
  | nil => exact ⟨rfl, le_rfl⟩
  | @cons member text rest texts hmember _ ih =>
      obtain ⟨key, value, hkey, hvalue, rfl⟩ := hmember
      have hquoted := h.string_quoted _ _ hkey
      have hsize : textSize h member.2 = value.length := by
        simp only [textSize, hvalue, Option.map_some, Option.getD_some]
      refine ⟨by rw [List.length_cons, List.length_cons, ih.1], ?_⟩
      simp only [List.map_cons, List.sum_cons, List.length_cons, List.length_append, hsize]
      omega

/-- The text of a row is shorter than that of its entry. -/
theorem row_length_lt {row : List Json} {document : Json} {text line : Bytes}
    (hdocument : documentOf (.array row) = some document) (hrow : h.dumps (.array row) = some text)
    (hline : h.dumps document = some line) : text.length < line.length := by
  obtain ⟨values, hvalues, rfl⟩ := dumps_array.1 hrow
  unfold documentOf at hdocument
  split at hdocument
  · rename_i sequence previous timestamp principal operation tenant correlation resultDigest status
      evidence heq
    obtain rfl := Json.array.inj heq
    obtain rfl := Option.some.inj hdocument
    obtain ⟨texts, htexts, rfl⟩ := dumps_object.1 hline
    obtain ⟨hcount, hsum⟩ := sum_members htexts
    have hrowSum := sum_textSize hvalues
    have hrowCount := hvalues.length_eq
    have hnullSize : textSize h .null = 4 := rfl
    simp only [List.length_cons, List.length_append, commas_length, List.length_nil, hcount]
    cases hnull : isNull evidence with
    | false =>
        simp only [hnull, Bool.false_eq_true, if_false, List.cons_append, List.nil_append,
          List.map_cons, List.map_nil, List.sum_cons, List.sum_nil, List.length_cons,
          List.length_nil] at hsum hrowSum hrowCount ⊢
        omega
    | true =>
        have hevidence : evidence = .null := by
          cases evidence with
          | null => rfl
          | _ => cases hnull
        rw [hevidence] at hrowSum
        simp only [hnull, if_true, List.cons_append, List.nil_append,
          List.map_cons, List.map_nil, List.sum_cons, List.sum_nil, List.length_cons,
          List.length_nil, hnullSize] at hsum hrowSum hrowCount ⊢
        omega
  · cases hdocument

end Rows

/-! ## Steps -/

section Steps

variable {h : WitnessHost} {chain chain' : EntryChain} {document : Json} {canonical : Bytes}

theorem canonicalBytes_eq_some {maximum : Nat} {raw : Bytes} :
    canonicalBytes h document maximum = some raw ↔
      ∃ text, h.dumps document = some text ∧ text.length + 1 ≤ maximum ∧ raw = text ++ [10] := by
  unfold canonicalBytes
  rw [Option.bind_eq_bind, Option.bind_eq_some_iff]
  constructor
  · rintro ⟨text, htext, hraw⟩
    split at hraw
    · rename_i hsize
      exact ⟨text, htext, hsize, (Option.some.inj hraw).symm⟩
    · cases hraw
  · rintro ⟨text, htext, hsize, rfl⟩
    exact ⟨text, htext, if_pos hsize⟩

theorem decodeJsonObject_eq_some {raw : Bytes} {maximum : Nat} :
    decodeJsonObject h raw maximum = some document ↔
      raw.length ≤ maximum ∧ h.loads raw = some document ∧ isObject document = true := by
  unfold decodeJsonObject
  constructor
  · intro hdecode
    split at hdecode
    · rename_i hsize
      split at hdecode
      · rename_i members hloads
        obtain rfl := Option.some.inj hdecode
        exact ⟨hsize, hloads, rfl⟩
      · cases hdecode
    · cases hdecode
  · rintro ⟨hsize, hloads, hobject⟩
    rw [if_pos hsize, hloads]
    cases document with
    | object members => rfl
    | _ => cases hobject

/-- Which message an invalid entry raises does not matter for the others. -/
theorem EntryChain.add_message (invalid invalid' : String)
    (hadd : chain.add h invalid document = .ok (chain', canonical)) :
    chain.add h invalid' document = .ok (chain', canonical) := by
  unfold EntryChain.add at *
  simp only [bind_eq_ok, orInvalid_eq_ok] at *
  exact hadd

/-- An entry that was added is valid, and counted. -/
structure Added (h : WitnessHost) (chain chain' : EntryChain) (document : Json)
    (canonical : Bytes) : Prop where
  entry : ∃ members, document = .object members ∧ acceptsEntry h members = true
  written : ∃ text, h.dumps document = some text ∧ text.length + 1 ≤ maxCanonicalBytes ∧
    canonical = text ++ [10]
  count : chain'.count = chain.count + 1
  bound : chain'.count ≤ maxWitnessedEntries

theorem EntryChain.added {invalid : String}
    (hadd : chain.add h invalid document = .ok (chain', canonical)) :
    Added h chain chain' document canonical := by
  unfold EntryChain.add at hadd
  simp only [bind_eq_ok, orInvalid_eq_ok, require_eq_ok, pure_eq_ok, Prod.mk.injEq,
    decide_eq_true_eq] at hadd
  obtain ⟨⟨raw, digest⟩, hentry, _, -, _, -, _, -, _, -, _, -, _, hbound, rfl, rfl⟩ := hadd
  unfold canonicalAuditEntry at hentry
  split at hentry
  · rename_i members
    split at hentry
    · rename_i haccepts
      obtain ⟨raw', hraw, hpair⟩ := Option.map_eq_some_iff.1 hentry
      obtain ⟨rfl, -⟩ := Prod.mk.inj hpair
      exact ⟨⟨members, rfl, haccepts⟩, canonicalBytes_eq_some.1 hraw, rfl, hbound⟩
    · cases hentry
  · cases hentry

/-- The text of a row, behind the comma that separates it from the rows before it. -/
def rowText (chain : EntryChain) (text : Bytes) : Bytes := separator chain ++ text

/-- What a step of the inspection makes of its entry. -/
structure Inspected (h : WitnessHost) (chain chain' : EntryChain) (rows rows' line : Bytes)
    (row : List Json) (text : Bytes) : Prop where
  normal : (Json.array row).Normal
  written : h.dumps (.array row) = some text
  rows : rows' = rows ++ rowText chain text
  size : rows'.length + 2 ≤ maxArchiveSegmentBytes
  count : chain'.count = chain.count + 1
  bound : chain'.count ≤ maxWitnessedEntries
  expands : ∀ segment : Bytes, (segment ++ line).length ≤ maxArchiveSegmentBytes →
    expandRow h (chain, segment) (.array row) = .ok (chain', segment ++ line)

theorem inspectLine_expands {rows rows' line : Bytes}
    (hstep : inspectLine h (chain, rows) line = .ok (chain', rows')) :
    ∃ row text, Inspected h chain chain' rows rows' line row text := by
  obtain ⟨document, hdecode, hstep⟩ := bind_eq_ok.1 hstep
  obtain ⟨⟨next, canonical⟩, hadd, hstep⟩ := bind_eq_ok.1 hstep
  obtain ⟨_, hcanonical, hstep⟩ := bind_eq_ok.1 hstep
  obtain ⟨raw, hraw, hstep⟩ := bind_eq_ok.1 hstep
  obtain ⟨_, hsize, hstep⟩ := bind_eq_ok.1 hstep
  obtain ⟨rfl, rfl⟩ := Prod.mk.inj (pure_eq_ok.1 hstep)
  rw [orInvalid_eq_ok] at hdecode hraw
  rw [require_eq_ok, decide_eq_true_eq] at hcanonical hsize
  subst hcanonical
  obtain ⟨text, htext, -, rfl⟩ := canonicalBytes_eq_some.1 hraw
  rw [List.dropLast_concat] at hsize ⊢
  have hadded := EntryChain.added hadd
  obtain ⟨members, rfl, haccepts⟩ := hadded.entry
  have hnormal := h.loads_normal _ _ (decodeJsonObject_eq_some.1 hdecode).2.1
  refine ⟨rowOf (.object members), text, ?_, htext, ?_, hsize, hadded.count, hadded.bound, ?_⟩
  · refine Json.Normal.array _ fun value hvalue => ?_
    obtain ⟨name, -, rfl⟩ := List.mem_map.1 hvalue
    exact hnormal.get name
  · show rows ++ separator chain ++ text = rows ++ (separator chain ++ text)
    rw [List.append_assoc]
  · intro segment hsegment
    refine bind_eq_ok.2 ⟨_, orInvalid_eq_ok.2 (documentOf_rowOf haccepts hnormal), bind_eq_ok.2 ⟨(next, canonical),
      EntryChain.add_message invalidEntry invalidWitness hadd, bind_eq_ok.2 ⟨(), ?_, rfl⟩⟩⟩
    exact require_eq_ok.2 (decide_eq_true hsegment)

/-- What a step of the expansion makes of its row. -/
structure Expanded (h : WitnessHost) (chain chain' : EntryChain) (segment segment' text : Bytes)
    (line : Bytes) : Prop where
  clean : CleanLine line
  output : segment' = segment ++ line
  size : segment'.length ≤ maxArchiveSegmentBytes
  inspects : ∀ rows : Bytes, (rows ++ rowText chain text).length + 2 ≤ maxArchiveSegmentBytes →
    inspectLine h (chain, rows) line = .ok (chain', rows ++ rowText chain text)

theorem expandRow_inspects {segment segment' text : Bytes} {row : Json} (hnormal : row.Normal)
    (htext : h.dumps row = some text)
    (hstep : expandRow h (chain, segment) row = .ok (chain', segment')) :
    ∃ line, Expanded h chain chain' segment segment' text line := by
  unfold expandRow at hstep
  obtain ⟨document, hdocument, hstep⟩ := bind_eq_ok.1 hstep
  obtain ⟨⟨next, canonical⟩, hadd, hstep⟩ := bind_eq_ok.1 hstep
  obtain ⟨_, hsize, hstep⟩ := bind_eq_ok.1 hstep
  obtain ⟨rfl, rfl⟩ := Prod.mk.inj (pure_eq_ok.1 hstep)
  rw [orInvalid_eq_ok] at hdocument
  rw [require_eq_ok, decide_eq_true_eq] at hsize
  obtain ⟨values, rfl⟩ := documentOf_array hdocument
  have hvalues : ∀ value ∈ values, value.Normal := by
    cases hnormal with
    | array _ hvalues => exact hvalues
  obtain ⟨line, hline, hbound, rfl⟩ := (EntryChain.added hadd).written
  have hdocumentNormal := documentOf_normal hdocument hvalues
  refine ⟨line ++ [10], (h.dumps_plain document hline).line, rfl, hsize, fun rows hrows => ?_⟩
  have hdecode : decodeJsonObject h (line ++ [10]) maxCanonicalBytes = some document := by
    refine decodeJsonObject_eq_some.2 ⟨?_, h.loads_line document line hdocumentNormal hline, ?_⟩
    · rw [List.length_append]
      exact hbound
    · obtain ⟨members, rfl⟩ := documentOf_object hdocument
      rfl
  have hrow : canonicalBytes h (.array (rowOf document)) maxCanonicalBytes =
      some (text ++ [10]) := by
    rw [rowOf_documentOf hdocument]
    have hshorter := row_length_lt hdocument htext hline
    exact canonicalBytes_eq_some.2 ⟨text, htext, by omega, rfl⟩
  refine bind_eq_ok.2 ⟨document, orInvalid_eq_ok.2 hdecode, bind_eq_ok.2 ⟨(next, line ++ [10]),
    EntryChain.add_message invalidWitness invalidEntry hadd, bind_eq_ok.2 ⟨(),
    require_eq_ok.2 (decide_eq_true rfl), bind_eq_ok.2 ⟨text ++ [10], orInvalid_eq_ok.2 hrow,
    ?_⟩⟩⟩⟩
  rw [List.dropLast_concat, show rows ++ separator chain ++ text =
    rows ++ rowText chain text from List.append_assoc _ _ _]
  exact bind_eq_ok.2 ⟨(), require_eq_ok.2 (decide_eq_true hrows), rfl⟩

end Steps

/-! ## Folds -/

section Folds

variable {h : WitnessHost}

/-- The rows behind a chain of `count` entries. -/
def rowsText (count : Nat) : List Bytes → Bytes
  | [] => []
  | text :: rest => (if count = 0 then [] else [44]) ++ text ++ rowsText (count + 1) rest

theorem rowsText_succ (count : Nat) (texts : List Bytes) :
    rowsText (count + 1) texts = texts.flatMap fun text => 44 :: text := by
  induction texts generalizing count with
  | nil => rfl
  | cons text rest ih =>
      rw [rowsText, if_neg (Nat.succ_ne_zero count), ih, List.flatMap_cons]
      rfl

theorem commas_eq_rowsText (texts : List Bytes) : commas texts = rowsText 0 texts := by
  cases texts with
  | nil => rfl
  | cons text rest =>
      rw [rowsText, if_pos rfl, rowsText_succ, List.nil_append]
      induction rest generalizing text with
      | nil => exact (List.append_nil text).symm
      | cons second rest ih =>
          rw [commas_cons text (List.cons_ne_nil second rest), ih, List.flatMap_cons]
          rfl

/-- What the inspection of lines makes of their entries. -/
structure AllInspected (h : WitnessHost) (chain chain' : EntryChain) (rows rows' : Bytes)
    (lines : List Bytes) (expanded : List Json) (texts : List Bytes) : Prop where
  normal : ∀ row ∈ expanded, row.Normal
  written : List.Forall₂ (fun row text => h.dumps row = some text) expanded texts
  length : expanded.length = lines.length
  rows : rows' = rows ++ rowsText chain.count texts
  size : lines ≠ [] → rows'.length + 2 ≤ maxArchiveSegmentBytes
  count : chain'.count = chain.count + lines.length
  bound : lines ≠ [] → chain'.count ≤ maxWitnessedEntries
  expands : ∀ segment : Bytes, (segment ++ lines.flatten).length ≤ maxArchiveSegmentBytes →
    expanded.foldlM (expandRow h) (chain, segment) = .ok (chain', segment ++ lines.flatten)

theorem inspectLines_expand {lines : List Bytes} :
    ∀ {chain chain' : EntryChain} {rows rows' : Bytes},
      lines.foldlM (inspectLine h) (chain, rows) = .ok (chain', rows') →
        ∃ expanded texts, AllInspected h chain chain' rows rows' lines expanded texts := by
  induction lines with
  | nil =>
      intro chain chain' rows rows' hfold
      obtain ⟨rfl, rfl⟩ := Prod.mk.inj (pure_eq_ok.1 hfold)
      refine ⟨[], [], fun _ hmem => absurd hmem List.not_mem_nil, .nil, rfl, ?_, fun hne =>
        absurd rfl hne, rfl, fun hne => absurd rfl hne, fun segment _ => ?_⟩
      · exact (List.append_nil rows).symm
      · rw [List.flatten_nil, List.append_nil]
        rfl
  | cons line lines ih =>
      intro chain chain' rows rows' hfold
      rw [List.foldlM_cons] at hfold
      obtain ⟨⟨next, between⟩, hstep, hfold⟩ := bind_eq_ok.1 hfold
      obtain ⟨row, text, hfirst⟩ := inspectLine_expands hstep
      obtain ⟨expanded, texts, hrest⟩ := ih hfold
      refine ⟨.array row :: expanded, text :: texts, ?_, .cons hfirst.written hrest.written, ?_, ?_,
        ?_, ?_, ?_, fun segment hsegment => ?_⟩
      · exact List.forall_mem_cons.2 ⟨hfirst.normal, hrest.normal⟩
      · rw [List.length_cons, List.length_cons, hrest.length]
      · rw [hrest.rows, hfirst.rows, hfirst.count, rowsText, rowText, separator]
        simp only [List.append_assoc]
      · intro _
        by_cases hlines : lines = []
        · subst hlines
          obtain ⟨rfl, rfl⟩ := Prod.mk.inj (pure_eq_ok.1 hfold)
          exact hfirst.size
        · exact hrest.size hlines
      · rw [hrest.count, hfirst.count, List.length_cons]
        omega
      · intro _
        by_cases hlines : lines = []
        · subst hlines
          obtain ⟨rfl, rfl⟩ := Prod.mk.inj (pure_eq_ok.1 hfold)
          exact hfirst.bound
        · exact hrest.bound hlines
      · rw [List.flatten_cons, ← List.append_assoc] at hsegment ⊢
        have hhead : (segment ++ line).length ≤ maxArchiveSegmentBytes := by
          rw [List.length_append] at hsegment
          omega
        rw [List.foldlM_cons, hfirst.expands segment hhead]
        exact hrest.expands (segment ++ line) hsegment

/-- What the expansion of rows makes of them. -/
structure AllExpanded (h : WitnessHost) (chain chain' : EntryChain) (segment segment' : Bytes)
    (texts lines : List Bytes) : Prop where
  clean : ∀ line ∈ lines, CleanLine line
  output : segment' = segment ++ lines.flatten
  count : lines.length = texts.length
  size : lines ≠ [] → segment'.length ≤ maxArchiveSegmentBytes
  inspects : ∀ rows : Bytes,
    (rows ++ rowsText chain.count texts).length + 2 ≤ maxArchiveSegmentBytes →
      lines.foldlM (inspectLine h) (chain, rows) =
        .ok (chain', rows ++ rowsText chain.count texts)

theorem expandRows_inspect {expanded : List Json} :
    ∀ {chain chain' : EntryChain} {segment segment' : Bytes} {texts : List Bytes},
      (∀ row ∈ expanded, row.Normal) →
        List.Forall₂ (fun row text => h.dumps row = some text) expanded texts →
          expanded.foldlM (expandRow h) (chain, segment) = .ok (chain', segment') →
            ∃ lines, AllExpanded h chain chain' segment segment' texts lines := by
  induction expanded with
  | nil =>
      intro chain chain' segment segment' texts _ htexts hfold
      obtain ⟨rfl, rfl⟩ := Prod.mk.inj (pure_eq_ok.1 hfold)
      cases htexts
      refine ⟨[], fun _ hmem => absurd hmem List.not_mem_nil, (List.append_nil _).symm, rfl,
        fun hne => absurd rfl hne, fun rows _ => ?_⟩
      rw [rowsText, List.append_nil]
      rfl
  | cons row expanded ih =>
      intro chain chain' segment segment' texts hnormal htexts hfold
      rw [List.foldlM_cons] at hfold
      obtain ⟨⟨next, between⟩, hstep, hfold⟩ := bind_eq_ok.1 hfold
      cases htexts with
      | @cons _ text _ texts htext htexts =>
          rw [List.forall_mem_cons] at hnormal
          obtain ⟨line, hfirst⟩ := expandRow_inspects hnormal.1 htext hstep
          obtain ⟨lines, hrest⟩ := ih hnormal.2 htexts hfold
          have hcount : next.count = chain.count + 1 := by
            obtain ⟨_, -, hstep⟩ := bind_eq_ok.1 hstep
            obtain ⟨⟨_, _⟩, hadd, hstep⟩ := bind_eq_ok.1 hstep
            obtain ⟨_, -, hstep⟩ := bind_eq_ok.1 hstep
            obtain ⟨rfl, -⟩ := Prod.mk.inj (pure_eq_ok.1 hstep)
            exact (EntryChain.added hadd).count
          refine ⟨line :: lines, List.forall_mem_cons.2 ⟨hfirst.clean, hrest.clean⟩, ?_, ?_, ?_,
            fun rows hrows => ?_⟩
          · rw [hrest.output, hfirst.output, List.flatten_cons, List.append_assoc]
          · rw [List.length_cons, List.length_cons, hrest.count]
          · intro _
            by_cases hlines : lines = []
            · rw [hrest.output, hlines, List.flatten_nil, List.append_nil]
              exact hfirst.size
            · exact hrest.size hlines
          · have hsplit : rows ++ rowsText chain.count (text :: texts) =
                (rows ++ rowText chain text) ++ rowsText next.count texts := by
              rw [rowsText, hcount, rowText, separator]
              simp only [List.append_assoc]
            rw [hsplit] at hrows ⊢
            have hhead : (rows ++ rowText chain text).length + 2 ≤ maxArchiveSegmentBytes := by
              rw [show (rows ++ rowText chain text ++ rowsText next.count texts).length =
                (rows ++ rowText chain text).length + (rowsText next.count texts).length from
                List.length_append] at hrows
              omega
            rw [List.foldlM_cons, hfirst.inspects rows hhead]
            exact hrest.inspects _ hrows

/-! ## Without the cache -/

theorem wrapped_eq (text : Bytes) : ascii "\x7b\"rows\":" ++ (text ++ [10]) ++ ascii "\x7d" =
    123 :: ascii "\"rows\"" ++ 58 :: (text ++ [10]) ++ [125] := by
  have hopen : ascii "\x7b\"rows\":" = 123 :: ascii "\"rows\"" ++ [58] := by decide
  have hclose : ascii "\x7d" = [125] := by decide
  rw [hopen, hclose]
  simp only [List.append_assoc, List.cons_append, List.nil_append]

theorem expandWitness_of_inspectRaw {raw : Bytes} {evidence : SegmentEvidence}
    (hinspect : inspectRaw h raw = .ok evidence) :
    expandWitness h evidence.witness = .ok (raw, evidence) := by
  obtain ⟨_, hraw, hinspect⟩ := bind_eq_ok.1 hinspect
  obtain ⟨⟨chain, rows⟩, hfold, hinspect⟩ := bind_eq_ok.1 hinspect
  obtain rfl := pure_eq_ok.1 hinspect
  simp only [require_eq_ok, Bool.and_eq_true, decide_eq_true_eq] at hraw
  obtain ⟨⟨hne, hsize⟩, -⟩ := hraw
  obtain ⟨expanded, texts, hall⟩ := inspectLines_expand hfold
  have hlines : splitNewlines raw ≠ [] := fun hnil => hne (by
    rw [← flatten_splitNewlines raw, hnil]
    rfl)
  have hpositive : 0 < expanded.length := by
    rw [hall.length]
    exact List.length_pos_iff.2 hlines
  have hmany : expanded.length ≤ maxWitnessedEntries := by
    have hbound := hall.bound hlines
    rw [hall.count, ← hall.length] at hbound
    exact (Nat.le_add_left _ _).trans hbound
  -- the witness is the canonical text of its rows
  have hrows : h.dumps (.array expanded) = some (rows ++ [93]) := by
    refine dumps_array.2 ⟨texts, hall.written, ?_⟩
    rw [hall.rows, commas_eq_rowsText]
    rfl
  have hwitness : rows ++ [93, 10] = (rows ++ [93]) ++ [10] := by
    rw [List.append_assoc]
    rfl
  have hlength : ((rows ++ [93]) ++ [10]).length ≤ maxArchiveSegmentBytes := by
    have hbound := hall.size hlines
    simp only [List.length_append, List.length_cons, List.length_nil]
    omega
  have hdecode : decodeJsonObject h (ascii "\x7b\"rows\":" ++ ((rows ++ [93]) ++ [10]) ++
      ascii "\x7d") (maxArchiveSegmentBytes + 16) = some (.object [("rows", .array expanded)]) := by
    refine decodeJsonObject_eq_some.2 ⟨?_, ?_, rfl⟩
    · have hopen : (ascii "\x7b\"rows\":").length = 8 := by decide
      have hclose : (ascii "\x7d").length = 1 := by decide
      rw [List.length_append, List.length_append, hopen, hclose]
      omega
    · rw [wrapped_eq]
      exact h.loads_member _ _ _ _ h.string_rows (.array expanded hall.normal) hrows
  have hexpand := hall.expands []
  rw [List.nil_append, flatten_splitNewlines] at hexpand
  show expandWitness h (rows ++ [93, 10]) = _
  rw [hwitness]
  refine bind_eq_ok.2 ⟨(), require_eq_ok.2 (decide_eq_true hlength), bind_eq_ok.2 ⟨_,
    orInvalid_eq_ok.2 hdecode, bind_eq_ok.2 ⟨expanded, rfl, bind_eq_ok.2 ⟨(), ?_, bind_eq_ok.2 ⟨_,
    orInvalid_eq_ok.2 (canonicalBytes_eq_some.2 ⟨_, hrows, ?_, rfl⟩), bind_eq_ok.2 ⟨(),
    require_eq_ok.2 (decide_eq_true rfl), bind_eq_ok.2 ⟨_, hexpand hsize, ?_⟩⟩⟩⟩⟩⟩⟩
  · rw [require_eq_ok, Bool.and_eq_true, decide_eq_true_eq, decide_eq_true_eq]
    exact ⟨hpositive, hmany⟩
  · rw [List.length_append] at hlength
    exact hlength
  · rfl

theorem inspectRaw_of_expandWitness {witness raw : Bytes} {evidence : SegmentEvidence}
    (hexpand : expandWitness h witness = .ok (raw, evidence)) :
    inspectRaw h raw = .ok evidence ∧ evidence.witness = witness := by
  obtain ⟨_, hsize, hexpand⟩ := bind_eq_ok.1 hexpand
  obtain ⟨wrapped, hdecode, hexpand⟩ := bind_eq_ok.1 hexpand
  obtain ⟨expanded, hwrapped, hexpand⟩ := bind_eq_ok.1 hexpand
  obtain ⟨_, hcount, hexpand⟩ := bind_eq_ok.1 hexpand
  obtain ⟨canonical, hcanonical, hexpand⟩ := bind_eq_ok.1 hexpand
  obtain ⟨_, hsame, hexpand⟩ := bind_eq_ok.1 hexpand
  obtain ⟨⟨chain, segment⟩, hfold, hexpand⟩ := bind_eq_ok.1 hexpand
  obtain ⟨rfl, rfl⟩ := Prod.mk.inj (pure_eq_ok.1 hexpand)
  rw [orInvalid_eq_ok] at hdecode hcanonical
  simp only [require_eq_ok, Bool.and_eq_true, decide_eq_true_eq] at hsize hcount hsame
  subst hsame
  obtain ⟨text, htext, -, rfl⟩ := canonicalBytes_eq_some.1 hcanonical
  obtain ⟨texts, htexts, rfl⟩ := dumps_array.1 htext
  -- rows of a decoded document are in normal form, so each is written back as it was read
  have hnormal : ∀ row ∈ expanded, row.Normal := by
    unfold rowsOf at hwrapped
    split at hwrapped
    · rename_i rows
      obtain rfl := pure_eq_ok.1 hwrapped
      have hnormal := h.loads_normal _ _ (decodeJsonObject_eq_some.1 hdecode).2.1
      cases hnormal with
      | object _ _ hmembers =>
          cases hmembers _ List.mem_cons_self with
          | array _ hrows => exact hrows
    · cases hwrapped
  -- the expansion and the inspection run row by row over the same lines
  obtain ⟨lines, hall⟩ := expandRows_inspect hnormal htexts hfold
  have hlines : lines ≠ [] := by
    intro hnil
    have hlength := hall.count
    rw [hnil, ← htexts.length_eq] at hlength
    exact absurd hcount.1 (hlength ▸ Nat.lt_irrefl 0)
  have hsegment : segment = lines.flatten := hall.output
  have hrows : [91] ++ rowsText 0 texts ++ [93, 10] = 91 :: commas texts ++ [93] ++ [10] := by
    rw [commas_eq_rowsText]
    simp only [List.append_assoc, List.cons_append, List.nil_append]
  refine ⟨bind_eq_ok.2 ⟨(), ?_, bind_eq_ok.2 ⟨(chain, [91] ++ rowsText 0 texts), ?_, ?_⟩⟩, rfl⟩
  · have hlast : segment.getLast? = some 10 := by
      obtain ⟨init, line, rfl⟩ := List.eq_nil_or_concat lines |>.resolve_left hlines
      rw [hsegment]
      have hclean := hall.clean line (by simp)
      rw [List.concat_eq_append, List.flatten_append, List.flatten_cons, List.flatten_nil,
        List.append_nil, List.getLast?_append, hclean.endsWith]
      rfl
    have hne : segment ≠ [] := by
      intro hnil
      rw [hnil] at hlast
      cases hlast
    rw [require_eq_ok]
    simp only [Bool.and_eq_true, decide_eq_true_eq]
    exact ⟨⟨hne, hall.size hlines⟩, hlast⟩
  · rw [hsegment, splitNewlines_flatten hall.clean]
    refine hall.inspects [91] ?_
    have hlength : ([91] ++ rowsText 0 texts ++ [93, 10]).length ≤ maxArchiveSegmentBytes := by
      rw [hrows]
      exact hsize
    have hclosing : ([91] ++ rowsText 0 texts ++ [93, 10]).length =
        ([91] ++ rowsText 0 texts).length + 2 := List.length_append
    rw [hclosing] at hlength
    exact hlength
  · show Except.ok (chain.evidence ([91] ++ rowsText 0 texts ++ [93, 10])) = _
    rw [hrows]

/-- The witnesses that are expanded to a segment are those that its inspection writes. -/
theorem expandWitness_iff {witness raw : Bytes} {evidence : SegmentEvidence} :
    expandWitness h witness = .ok (raw, evidence) ↔
      inspectRaw h raw = .ok evidence ∧ evidence.witness = witness := by
  refine ⟨inspectRaw_of_expandWitness, ?_⟩
  rintro ⟨hinspect, rfl⟩
  exact expandWitness_of_inspectRaw hinspect

end Folds

/-! ## With the cache -/

section Cache

variable {h : WitnessHost} {cache : ProofCache}

/-- Every cached proof is one that the inspection would make. -/
def Genuine (h : WitnessHost) (cache : ProofCache) : Prop :=
  ∀ pair ∈ cache, inspectRaw h pair.1 = .ok pair.2

theorem cachedProof_spec (accepts : Bytes × SegmentEvidence → Bool) (cache : ProofCache) :
    (∀ pair, (cachedProof accepts cache).1 = some pair → pair ∈ cache ∧ accepts pair = true) ∧
      ∀ pair ∈ (cachedProof accepts cache).2, pair ∈ cache := by
  unfold cachedProof
  cases hposition : cache.findIdx? accepts with
  | none => exact ⟨fun _ hsome => (nomatch hsome), fun _ hmem => hmem⟩
  | some position =>
      cases hpair : cache[position]? with
      | none =>
          simp only [hpair]
          exact ⟨fun _ hsome => (nomatch hsome), fun _ hmem => hmem⟩
      | some pair =>
          simp only [hpair]
          have hmem := List.mem_of_getElem? hpair
          refine ⟨fun found hfound => ?_, fun found hfound => ?_⟩
          · obtain rfl := Option.some.inj hfound
            obtain ⟨hlt, haccepts, -⟩ := List.findIdx?_eq_some_iff_getElem.1 hposition
            rw [List.getElem?_eq_getElem hlt] at hpair
            exact ⟨hmem, Option.some.inj hpair ▸ haccepts⟩
          · rcases List.mem_cons.1 hfound with rfl | hfound
            · exact hmem
            · exact List.mem_of_mem_eraseIdx hfound

theorem Genuine.remember (hcache : Genuine h cache) {raw : Bytes} {evidence : SegmentEvidence}
    (hraw : inspectRaw h raw = .ok evidence) : Genuine h (rememberProof raw evidence cache) := by
  intro pair hpair
  rcases List.mem_cons.1 (List.mem_of_mem_take hpair) with rfl | hmem
  · exact hraw
  · exact hcache pair (List.mem_filter.1 hmem).1

/-- A genuine cache does not change what an inspection returns. -/
theorem Genuine.inspects (hcache : Genuine h cache) (raw : Bytes) :
    (inspectSegment h raw cache).1 = inspectRaw h raw ∧ Genuine h (inspectSegment h raw cache).2 := by
  obtain ⟨hfound, hkept⟩ := cachedProof_spec (fun pair => decide (pair.1 = raw)) cache
  unfold inspectSegment
  cases hcached : cachedProof (fun pair => decide (pair.1 = raw)) cache with
  | mk found cache' =>
      rw [hcached] at hfound hkept
      have hgenuine : Genuine h cache' := fun pair hpair => hcache pair (hkept pair hpair)
      cases found with
      | some pair =>
          obtain ⟨hmem, hmatch⟩ := hfound pair rfl
          have hraw : pair.1 = raw := of_decide_eq_true hmatch
          exact ⟨by rw [← hraw, hcache pair hmem], hgenuine⟩
      | none =>
          cases hinspect : inspectRaw h raw with
          | error error => exact ⟨rfl, hgenuine⟩
          | ok evidence => exact ⟨rfl, hgenuine.remember hinspect⟩

/-- A genuine cache does not change what an expansion returns. -/
theorem Genuine.expands (hcache : Genuine h cache) (witness : Bytes) :
    (segmentFromWitness h witness cache).1 = (expandWitness h witness).map Prod.fst ∧
      Genuine h (segmentFromWitness h witness cache).2 := by
  obtain ⟨hfound, hkept⟩ := cachedProof_spec (fun pair => decide (pair.2.witness = witness)) cache
  unfold segmentFromWitness
  cases hcached : cachedProof (fun pair => decide (pair.2.witness = witness)) cache with
  | mk found cache' =>
      rw [hcached] at hfound hkept
      have hgenuine : Genuine h cache' := fun pair hpair => hcache pair (hkept pair hpair)
      cases found with
      | some pair =>
          obtain ⟨hmem, hmatch⟩ := hfound pair rfl
          have hexpand := expandWitness_of_inspectRaw (hcache pair hmem)
          rw [show pair.2.witness = witness from of_decide_eq_true hmatch] at hexpand
          exact ⟨by rw [hexpand]; rfl, hgenuine⟩
      | none =>
          cases hexpand : expandWitness h witness with
          | error error => exact ⟨rfl, hgenuine⟩
          | ok pair =>
              exact ⟨rfl, hgenuine.remember (inspectRaw_of_expandWitness hexpand).1⟩

/-- The caches that inspections and expansions leave, whatever they were given. -/
inductive CacheReached (h : WitnessHost) : ProofCache → Prop where
  | empty : CacheReached h []
  | inspected (raw : Bytes) (cache : ProofCache) (hcache : CacheReached h cache) :
      CacheReached h (inspectSegment h raw cache).2
  | expanded (witness : Bytes) (cache : ProofCache) (hcache : CacheReached h cache) :
      CacheReached h (segmentFromWitness h witness cache).2

theorem CacheReached.genuine (hcache : CacheReached h cache) : Genuine h cache := by
  induction hcache with
  | empty => exact fun _ hmem => absurd hmem List.not_mem_nil
  | inspected raw _ _ ih => exact (ih.inspects raw).2
  | expanded witness _ _ ih => exact (ih.expands witness).2

/-- Inspection and expansion are inverse, and return the same with every cache. -/
structure WitnessInverse (h : WitnessHost) : Prop where
  regenerates : ∀ cache cache', CacheReached h cache → CacheReached h cache' →
    ∀ raw evidence, (inspectSegment h raw cache).1 = .ok evidence →
      (segmentFromWitness h evidence.witness cache').1 = .ok raw
  reproduces : ∀ cache cache', CacheReached h cache → CacheReached h cache' →
    ∀ witness raw, (segmentFromWitness h witness cache).1 = .ok raw →
      ∃ evidence, (inspectSegment h raw cache').1 = .ok evidence ∧ evidence.witness = witness
  inspection : ∀ cache, CacheReached h cache → ∀ raw,
    (inspectSegment h raw cache).1 = (inspectSegment h raw []).1
  expansion : ∀ cache, CacheReached h cache → ∀ witness,
    (segmentFromWitness h witness cache).1 = (segmentFromWitness h witness []).1

theorem segments_and_witnesses_inverse (h : WitnessHost) : WitnessInverse h := by
  have hinspects : ∀ cache, CacheReached h cache → ∀ raw,
      (inspectSegment h raw cache).1 = inspectRaw h raw :=
    fun cache hcache raw => (hcache.genuine.inspects raw).1
  have hexpands : ∀ cache, CacheReached h cache → ∀ witness,
      (segmentFromWitness h witness cache).1 = (expandWitness h witness).map Prod.fst :=
    fun cache hcache witness => (hcache.genuine.expands witness).1
  refine ⟨fun cache cache' hcache hcache' raw evidence hok => ?_,
    fun cache cache' hcache hcache' witness raw hok => ?_, fun cache hcache raw => ?_,
    fun cache hcache witness => ?_⟩
  · rw [hinspects cache hcache] at hok
    rw [hexpands cache' hcache', expandWitness_of_inspectRaw hok]
    rfl
  · rw [hexpands cache hcache] at hok
    cases hexpand : expandWitness h witness with
    | error error =>
        rw [hexpand] at hok
        cases hok
    | ok pair =>
        rw [hexpand] at hok
        obtain rfl : pair.1 = raw := Except.ok.inj hok
        obtain ⟨hinspect, hwitness⟩ := inspectRaw_of_expandWitness hexpand
        refine ⟨pair.2, ?_, hwitness⟩
        rw [hinspects cache' hcache', hinspect]
  · rw [hinspects cache hcache, hinspects [] .empty]
  · rw [hexpands cache hcache, hexpands [] .empty]

/-- A host whose schema accepts the value of every member. -/
def sampleHost : WitnessHost where
  toCanonicalText := AsciiJson.asciiText
  string_rows := by decide +kernel
  sha256 := numeral
  property _ _ := true
  conditions _ := true

def sampleMembers : List (String × Json) :=
  [("apiVersion", .string apiVersion),
    ("correlationId", .string "01890f3e-7b6a-7cc3-98c4-dc0c0c07398f"),
    ("kind", .string "AuditEntry"), ("operation", .string "suspend"),
    ("operatorPrincipal", .string "operator"), ("previousEntryDigest", .null),
    ("resultDigest", .object [("algorithm", .string "sha256"),
      ("format", .string "lowerduckpond-operation-result-v1"), ("value", .string (sha256Text 7))]),
    ("resultStatus", .string "succeeded"), ("sequence", .number 0),
    ("tenantId", .string "01890f3e-7b6a-7cc3-98c4-dc0c0c073990"),
    ("timestamp", .string "2026-01-01T00:00:00Z")]

/-- The segment of one entry. -/
def sampleSegment : Bytes :=
  (canonicalBytes sampleHost (.object sampleMembers) maxCanonicalBytes).getD []

theorem sampleSegment_regenerated :
    ∃ evidence, (inspectSegment sampleHost sampleSegment []).1 = .ok evidence ∧
      (segmentFromWitness sampleHost evidence.witness []).1 = .ok sampleSegment := by
  have haccepted : (inspectSegment sampleHost sampleSegment []).1.isOk = true := by decide +kernel
  cases hinspect : (inspectSegment sampleHost sampleSegment []).1 with
  | error error =>
      rw [hinspect] at haccepted
      cases haccepted
  | ok evidence =>
      exact ⟨evidence, rfl, (segments_and_witnesses_inverse sampleHost).regenerates [] []
        .empty .empty sampleSegment evidence hinspect⟩

end Cache

end StaticHostAgent.Audit.Witness
