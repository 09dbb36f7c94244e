import StaticHostAgent.Isolation.Collect
import StaticHostAgent.Library.WriteOnce

/-!
# The journal of an isolated run

The journal is a set of items in a vault of a store that only adds items. `allRecords` reads it
through a listing of the vault, `put` adds one fact: it checks the fact against the records that it
reads, notes it in the private spool, and sends one POST, which is never repeated.
-/

set_option autoImplicit false

namespace StaticHostAgent.Isolation

open Library Contracts

/-! ## The vault -/

/-- The text of a secure note: the canonical text of a record, or something else. -/
inductive Content where
  | canonical (record : Record)
  | other (text : String)
  deriving DecidableEq

/-- An item of the vault. -/
structure Item where
  id : String
  title : String
  category : String
  tags : List String
  state : Option String
  content : Option Content
  deriving DecidableEq

/-- What a listing says about an item. -/
structure Listed where
  id : String
  title : String
  tags : List String
  deriving DecidableEq

def Item.listed (item : Item) : Listed := ⟨item.id, item.title, item.tags⟩

/-- `TAG` -/
def journalTag : String := "ldp-m3-11-public-ca-obligations-v1"

/-- The titles of one run start with this. -/
def runTitle (m : Manifest) : String := "m3-11-public-ca-" ++ m.plan.runId ++ "-"

/-- `MAX_ITEMS` -/
def maxItems : Nat := 10000

/-- `MAX_RECORDS` -/
def maxRecords : Nat := 256

/-- `[A-Za-z0-9]{26}` -/
def isConnectIdentity (text : String) : Bool := fullmatch (List.replicate 26 Char.isAlphanum) text

/-- `[a-z0-9]{26}` -/
def isItemIdentity (text : String) : Bool :=
  fullmatch (List.replicate 26 fun c => c.isLower || c.isDigit) text

variable (h : IsolationHost)

/-- `Journal._title` -/
def title (m : Manifest) (record : Record) : String := runTitle m ++ h.digest (.record record)

/-- The title belongs to the run. -/
def inNamespace (m : Manifest) (text : String) : Bool :=
  (runTitle m).toList.isPrefixOf text.toList

/-! ## Reading -/

/-- `Journal._read` on the item that was received -/
def readItem (m : Manifest) (item : Item) : Except IsolationError Record := do
  require (decide (item.category = "SECURE_NOTE") && decide (item.tags = [journalTag]) &&
      decide (item.state = none))
    (.value "isolated journal item metadata differs")
  match item.content with
  | some (.canonical record) => do
      validate h record m
      require (decide (item.title = title h m record))
        (.value "isolated journal item content or identity differs")
      .ok record
  | some (.other _) => .error (.value "isolated journal item content or identity differs")
  | none => .error (.lifecycle "credential journal item content is unavailable")

/-- `Journal._read` -/
def read (m : Manifest) (items : List Item) (id : String) : Except IsolationError Record := do
  require (isItemIdentity id)
    (.lifecycle "Connect operations need immutable vault and item identities")
  match items.find? fun item => item.id == id with
  | some item => readItem h m item
  | none => .error (.lifecycle "Connect item identity could not be verified")

/-- The record behind one row of a listing, if the row belongs to the run. -/
def rowRecord (m : Manifest) (items : List Item) (row : Listed) :
    Except IsolationError (Option Record) :=
  if inNamespace m row.title then do
    require (decide (row.tags = [journalTag]))
      (.value "isolated journal namespace contains a foreign record")
    let record ← read h m items row.id
    require (decide (row.title = title h m record))
      (.value "isolated listed journal identity differs")
    .ok (some record)
  else .ok none

/-- The identities seen so far and the records by their digests. -/
structure Listing where
  seen : List String
  result : Directory String Record

/-- The record joins the result; the same record again is one fact. -/
def addRecord (result : Directory String Record) : Option Record → Directory String Record
  | none => result
  | some record => result.insert (h.digest (.record record)) record

/-- One row of a listing. -/
def collectRow (m : Manifest) (items : List Item) (state : Listing) (row : Listed) :
    Except IsolationError Listing := do
  require (isConnectIdentity row.id) (.lifecycle "Connect identity is invalid")
  require (!(state.seen.contains row.id)) (.value "isolated journal listing repeats an item")
  let found ← rowRecord h m items row
  checkIf found.isSome (require (decide ((addRecord h state.result found).size ≤ maxRecords))
    (.value "isolated journal exceeds its per-run record bound"))
  .ok ⟨row.id :: state.seen, addRecord h state.result found⟩

/-- `Journal.all_records` on the listing that was received -/
def allRecords (m : Manifest) (listing : List Listed) (items : List Item) :
    Except IsolationError (List Record) := do
  require (decide (listing.length ≤ maxItems))
    (.value "isolated journal listing is unavailable or incomplete")
  let state ← listing.foldlM (collectRow h m items) ⟨[], Directory.empty⟩
  collect h m (state.result.entries.map Prod.snd)

/-! ## Publication -/

/-- The vault, the pending spool of one writer, and the POSTs that the writer has sent. -/
structure JournalWorld where
  items : List Item
  spool : WriteOnce String Record
  posts : List Record

/-- What the store answers during one publication: the listing, the identity under which it stores
the item if the POST takes effect, the identity in its response unless that is lost, and whether the
item becomes visible in time. -/
structure PutAnswers where
  listing : Option (List Listed)
  stored : Option String
  acknowledged : Option String
  visible : Bool

/-- The record that `put` builds. -/
def recordOf (m : Manifest) (fact : Fact) : Record := ⟨journalFormat, m.sha256 h, fact⟩

/-- The item that is posted. -/
def itemOf (m : Manifest) (record : Record) (id : String) : Item :=
  ⟨id, title h m record, "SECURE_NOTE", [journalTag], none, some (.canonical record)⟩

/-- The vault after a POST; the store gives a new item an identity that no other item has. -/
def stored (m : Manifest) (record : Record) (items : List Item) : Option String → List Item
  | none => items
  | some id =>
      if isItemIdentity id && !((items.map Item.id).contains id) then
        items ++ [itemOf h m record id]
      else items

/-- The POST itself. -/
def post (m : Manifest) (record : Record) (answer : Option String) (w : JournalWorld) :
    JournalWorld :=
  { w with items := stored h m record w.items answer, posts := w.posts ++ [record] }

/-- `all_records` with the answer to the listing request. -/
def readRecords (m : Manifest) (listing : Option (List Listed)) (w : JournalWorld) :
    Except IsolationError (List Record) :=
  match listing with
  | some listing => allRecords h m listing w.items
  | none => .error (.value "isolated journal listing is unavailable or incomplete")

/-- The spool must not hold the fact: a fact that was noted may have been posted. -/
def requireUnposted (record : Record) (w : JournalWorld) : Except IsolationError Unit :=
  match w.spool.find? (h.digest (.record record)) with
  | none => .ok ()
  | some .torn => .error (.value "combined private inputs are ambiguous or changed")
  | some (.complete pending) =>
      .error (if pending = record then
          .value "isolated journal publication remains unobserved; POST is not replayed"
        else .value "isolated pending journal fact changed")

/-- Note the fact in the spool. -/
def writePending (record : Record) : Durable JournalWorld IsolationError Unit := do
  Durable.query fun _ => require (h.fits record)
    (.value "combined private inputs exceed their byte bound")
  Durable.effect fun w =>
    { w with spool := Directory.insert w.spool (h.digest (.record record)) .torn }
  Durable.effect fun w =>
    { w with spool := Directory.insert w.spool (h.digest (.record record)) (.complete record) }

/-- The response must name an item that reads back as the fact; one that does not become visible is
not found. -/
def requireStored (m : Manifest) (record : Record) (answers : PutAnswers) (w : JournalWorld) :
    Except IsolationError Unit :=
  match answers.acknowledged with
  | none => .error (.value "isolated journal publication was not acknowledged")
  | some id => do
      require (isConnectIdentity id) (.lifecycle "Connect identity is invalid")
      let value ← read h m (if answers.visible then w.items else []) id
      require (decide (value = record)) (.value "isolated exact journal readback differs")

/-- Send a fact that is neither stored nor pending. -/
def publish (m : Manifest) (record : Record) (answers : PutAnswers) :
    Durable JournalWorld IsolationError Unit := do
  writePending h record
  Durable.effect (post h m record answers.stored)
  Durable.query (requireStored h m record answers)

/-- `Journal.put`; a journal without a spool cannot publish. -/
def put (m : Manifest) (spooled : Bool) (fact : Fact) (answers : PutAnswers) :
    Durable JournalWorld IsolationError Unit := do
  Durable.query fun _ => validate h (recordOf h m fact) m
  let existing ← Durable.query (readRecords h m answers.listing)
  if recordOf h m fact ∈ existing then pure ()
  else do
    let _ ← Durable.query fun _ => collect h m (existing ++ [recordOf h m fact])
    Durable.query fun _ => require spooled
      (.value "isolated journal publication needs its private pending spool")
    Durable.query (requireUnposted h (recordOf h m fact))
    publish h m (recordOf h m fact) answers

/-- A credential fact as the lease writes it. -/
structure Obligation where
  format : String
  planSha256 : String
  fact : Fact
  deriving DecidableEq

/-- `CORE_FORMAT` -/
def coreFormat : String := "lowerduckpond-isolated-public-ca-obligation-v1"

/-- `Journal.persist` -/
def persist (m : Manifest) (spooled : Bool) (value : Obligation) (answers : PutAnswers) :
    Durable JournalWorld IsolationError Unit := do
  Durable.query fun _ => require (decide (value.format = coreFormat) &&
      decide (value.planSha256 = m.plan.sha256 h) && value.fact.isCore)
    (.value "isolated credential fact escaped its manifest")
  put h m spooled value.fact answers

/-- `Journal.reserve`; the reservation is consumed by the native volume, which may refuse. -/
def reserve (m : Manifest) (spooled : Bool) (runId : String)
    (consume : Option (Except IsolationError Unit)) (value : Obligation) (answers : PutAnswers) :
    Durable JournalWorld IsolationError Unit := do
  Durable.query fun _ => require (decide (runId = m.plan.runId) && consume.isSome)
    (.value "isolated creation needs its native global reservation")
  Durable.query fun _ => consume.getD (.ok ())
  persist h m spooled value answers

end StaticHostAgent.Isolation
