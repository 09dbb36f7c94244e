import StaticHostAgent.Contracts.Texts
import StaticHostAgent.Library.Handlers

/-!
# Version listings of the remote archive

The listing of object versions and delete markers, page by page, and the purge of a key that no
tenant binds. The client is any function of what was exchanged before: it may be a store, a store
that changes meanwhile, or a malformed server. The state of a call is the traffic so far.
-/

set_option autoImplicit false

namespace StaticHostAgent.Archives

open Library Contracts

inductive RemoteError where
  | remote (message : String)
  | contract (message : String)
  /-- What the client or a caller's check raises. -/
  | raised (message : String)
  deriving DecidableEq

/-! ## Responses -/

/-- A value of a response. -/
inductive Value where
  | text (value : String)
  | flag (value : Bool)
  | integer (value : Int)
  | items (elements : List Value)
  | mapping (members : List (String × Value))
  | other

abbrev Response : Type := List (String × Value)

/-- `_PAGE_SIZE` -/
def pageSize : Nat := 100

/-- `_MAX_PAGES` -/
def maxPages : Nat := 100

/-- `_MAX_STRING_BYTES` -/
def maxStringBytes : Nat := 1024

/-- An entry must be a mapping. -/
def mappingOf : Value → Except RemoteError Response
  | .mapping members => .ok members
  | _ => .error (.remote "archive listing contains a malformed entry")

/-- `_items` -/
def itemsOf (response : Response) (field : String) : Except RemoteError (List Response) :=
  match response.lookup field with
  | none => .ok []
  | some (.items elements) => do
      require (decide (elements.length ≤ pageSize)) (.remote "archive listing is not a bounded list")
      elements.mapM mappingOf
  | some _ => .error (.remote "archive listing is not a bounded list")

/-- `_string` -/
def stringOf (response : Response) (field : String) : Except RemoteError String :=
  match response.lookup field with
  | some (.text value) => do
      require (!value.isEmpty && decide (value.utf8ByteSize ≤ maxStringBytes))
        (.remote "archive response contains an invalid string")
      .ok value
  | _ => .error (.remote "archive response contains an invalid string")

/-- `_size` -/
def lengthOf (response : Response) (field : String) : Except RemoteError Int :=
  match response.lookup field with
  | some (.integer value) => do
      require (decide (0 ≤ value)) (.remote "archive response contains an invalid length")
      .ok value
  | _ => .error (.remote "archive response contains an invalid length")

/-! ## Requests -/

/-- Where a page of a listing starts: a key and a version of it. -/
abbrev Marker : Type := String × String

inductive Request where
  | listObjectVersions (keyPrefix : String) (marker : Option Marker)
  | deleteObject (key versionId : String)
  deriving DecidableEq

structure Exchange where
  request : Request
  answer : Except RemoteError Response

abbrev Traffic : Type := List Exchange

/-- The answer to a request after some traffic. -/
abbrev ArchiveClient : Type := Traffic → Request → Except RemoteError Response

/-- Send one request. -/
def send (client : ArchiveClient) (request : Request) : Durable Traffic RemoteError Response :=
  fun log =>
    ⟨[log ++ [⟨request, client log request⟩]], log ++ [⟨request, client log request⟩],
      client log request⟩

/-! ## Pages -/

/-- `str.startswith` -/
def startsWith (text keyPrefix : String) : Bool := keyPrefix.toList.isPrefixOf text.toList

/-- The entries of one page stay within the page size. -/
def requirePageSize (response : Response) : Except RemoteError Unit := do
  let versions ← itemsOf response "Versions"
  let markers ← itemsOf response "DeleteMarkers"
  require (decide (versions.length + markers.length ≤ pageSize))
    (.remote "archive listing exceeded its page size")

/-- Where the listing goes on, if the page is not the last one. -/
def continuation (keyPrefix : String) (seen : List Marker) (response : Response) :
    Except RemoteError (Option Marker) :=
  match response.lookup "IsTruncated" with
  | some (.flag false) => .ok none
  | some (.flag true) => do
      let key ← stringOf response "NextKeyMarker"
      let versionId ← stringOf response "NextVersionIdMarker"
      require (startsWith key keyPrefix && !(seen.contains (key, versionId)))
        (.remote "archive listing returned an invalid continuation")
      .ok (some (key, versionId))
  | _ => .error (.remote "archive listing omitted its completion flag")

/-- The rest of the pages, of which at most `fuel` may follow. -/
def pagesFrom (client : ArchiveClient) (keyPrefix : String) :
    Nat → Option Marker → List Marker → Durable Traffic RemoteError (List Response)
  | 0, _, _ => Durable.fail (.remote "archive listing exceeded its page bound")
  | fuel + 1, marker, seen => do
      let response ← send client (.listObjectVersions keyPrefix marker)
      Durable.query fun _ => requirePageSize response
      let following ← Durable.query fun _ => continuation keyPrefix seen response
      match following with
      | none => pure [response]
      | some next => do
          let rest ← pagesFrom client keyPrefix fuel (some next) (next :: seen)
          pure (response :: rest)

/-- `_pages` of a version listing -/
def pages (client : ArchiveClient) (keyPrefix : String) :
    Durable Traffic RemoteError (List Response) :=
  pagesFrom client keyPrefix maxPages none []

/-! ## Versions -/

structure RemoteVersion where
  key : String
  versionId : String
  size : Int
  deleteMarker : Bool
  deriving DecidableEq

def RemoteVersion.identity (entry : RemoteVersion) : String × String := (entry.key, entry.versionId)

/-- `_managed_key`; an identity text is its own canonical form. -/
def managedKey (key : String) : Except RemoteError Unit := do
  require (startsWith key "archives/" && ".zip".toList.isSuffixOf key.toList)
    (.remote "object key is outside managed archive storage")
  require (isUuid7 (String.ofList ((key.toList.drop 9).take (key.toList.length - 13))))
    (.contract "identifier is not a canonical UUIDv7")

/-- The listing is about one key, or about all of them. -/
def requested (exactKey : Option String) (key : String) : Bool :=
  match exactKey with
  | none => true
  | some exact => decide (key = exact)

/-- The identities seen so far and the versions of the requested key. -/
structure Found where
  seen : List (String × String)
  versions : List RemoteVersion

/-- The size that an entry is charged. -/
def chargedSize (item : Response) (deleteMarker : Bool) : Except RemoteError Int :=
  if deleteMarker then .ok 0 else lengthOf item "Size"

/-- One entry of a page. -/
def addItem (keyPrefix : String) (exactKey : Option String) (deleteMarker : Bool) (found : Found)
    (item : Response) : Except RemoteError Found := do
  let key ← stringOf item "Key"
  require (startsWith key keyPrefix) (.remote "version listing escaped its prefix")
  let versionId ← stringOf item "VersionId"
  require (!(found.seen.contains (key, versionId)))
    (.remote "version listing repeated an object identity")
  let size ← chargedSize item deleteMarker
  .ok ⟨(key, versionId) :: found.seen,
    if requested exactKey key then found.versions ++ [⟨key, versionId, size, deleteMarker⟩]
    else found.versions⟩

/-- The entries of one page: its versions, then its delete markers. -/
def addPage (keyPrefix : String) (exactKey : Option String) (found : Found) (response : Response) :
    Except RemoteError Found := do
  let versions ← itemsOf response "Versions"
  let found ← versions.foldlM (addItem keyPrefix exactKey false) found
  let markers ← itemsOf response "DeleteMarkers"
  markers.foldlM (addItem keyPrefix exactKey true) found

/-- The prefix that is listed. -/
def listedPrefix : Option String → Except RemoteError String
  | none => .ok ""
  | some key => do
      managedKey key
      .ok key

/-- `list_versions` -/
def listVersions (client : ArchiveClient) (exactKey : Option String) :
    Durable Traffic RemoteError (List RemoteVersion) := do
  let keyPrefix ← Durable.query fun _ => listedPrefix exactKey
  let responses ← pages client keyPrefix
  let found ← Durable.query fun _ =>
    responses.foldlM (addPage keyPrefix exactKey) ⟨[], []⟩
  pure found.versions

/-- `require_absent` -/
def requireAbsent (client : ArchiveClient) (key : String) : Durable Traffic RemoteError Unit := do
  let versions ← listVersions client (some key)
  Durable.query fun _ => require versions.isEmpty
    (.remote "archive key still contains versions or markers")

/-! ## The purge of a key -/

/-- The response names the version that was to be deleted. -/
def namesVersion (response : Response) (versionId : String) : Bool :=
  match response.lookup "VersionId" with
  | some (.text value) => decide (value = versionId)
  | _ => false

/-- Delete one version; the caller's check comes first. -/
def deleteVersion (client : ArchiveClient) (requireUnbound : String → Traffic → Except RemoteError Unit)
    (key : String) (entry : RemoteVersion) : Durable Traffic RemoteError Unit := do
  Durable.query (requireUnbound key)
  let response ← send client (.deleteObject key entry.versionId)
  Durable.query fun _ => require (namesVersion response entry.versionId)
    (.remote "version deletion response is ambiguous")

/-- The rounds of a purge that are left. -/
def purgeRounds (client : ArchiveClient) (requireUnbound : String → Traffic → Except RemoteError Unit)
    (key : String) : Nat → Durable Traffic RemoteError Unit
  | 0 => requireAbsent client key
  | rounds + 1 => do
      Durable.query (requireUnbound key)
      let versions ← listVersions client (some key)
      if versions.isEmpty then pure ()
      else do
        versions.forM (deleteVersion client requireUnbound key)
        purgeRounds client requireUnbound key rounds

/-- `purge_unbound` -/
def purgeUnbound (client : ArchiveClient) (requireUnbound : String → Traffic → Except RemoteError Unit)
    (key : String) : Durable Traffic RemoteError Unit := do
  Durable.query fun _ => managedKey key
  purgeRounds client requireUnbound key 3

end StaticHostAgent.Archives
