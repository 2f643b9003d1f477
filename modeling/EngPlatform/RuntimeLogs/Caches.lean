import Mathlib.Data.Nat.Notation
import Mathlib.Logic.Function.Basic
import EngPlatform.Lib.Yields
import Mathlib.Algebra.GroupWithZero.Nat
import Mathlib.Algebra.Group.Int.Defs

/-!
# Sampled runtime logs and their caches

A cache holds the log entries of a resource under one access policy. The registry has one cache for
each key; a call of `read_logs` keeps the cache that it got, while others discard it or put another
under its key. The registry and the entries are only touched under one lock, section by section; the
catalog is read, and the remote calls are made, in between.
-/

set_option linter.dupNamespace false

namespace RuntimeLogs

open Interleave

/-! ## Resources and entries -/

structure Resource where
  serviceId : String
  project : String
  region : String
  kind : String
  enabled : Bool
  allowedLogins : List String
  deriving DecidableEq

abbrev Coordinates : Type := String × String × String × String

def Resource.key (resource : Resource) : Coordinates :=
  (resource.project, resource.region, resource.kind, resource.serviceId)

structure LogEntry where
  id : String
  timestamp : Int
  severity : ℕ
  revision : Option String
  execution : Option String
  taskIndex : Option ℕ
  content : String
  deriving DecidableEq

/-- What the calls take from elsewhere: the digest of a policy, `normalize` of what the provider has
sent, the size of an entry's JSON, the search for a text, and the configuration. -/
structure Site (ω : Type) where
  digest : Coordinates × Bool × List String → String
  normalize : ω → Resource → Int → Int → Option (LogEntry × Bool)
  size : LogEntry → ℕ
  mentions : String → LogEntry → Bool
  valid : Resource → Bool
  enabled : Bool
  mockMode : Bool
  bufferEntries : ℕ
  bufferBytes : ℕ
  pageSize : ℕ
  lookback : Int

def maxCacheResources : ℕ := 4096

def second : Int := 1000000

def cadenceSeconds : Int := 5

variable {ω : Type} (site : Site ω)

def policyFingerprint (resource : Resource) : String :=
  site.digest (resource.key, resource.enabled, resource.allowedLogins.mergeSort)

abbrev CacheKey : Type := Coordinates × String

/-- `_key`: the coordinates, and the fingerprint of the policy. -/
def cacheKey (resource : Resource) : CacheKey := (resource.key, policyFingerprint site resource)

/-! ## Caches -/

inductive Status
  | disabled
  | unavailable
  | throttled
  | stale
  | fresh
  deriving DecidableEq

structure Queue where
  position : Option ℕ
  waitSeconds : Option ℕ
  overloaded : Bool
  deferralReason : Option String
  deriving DecidableEq

/-- The fields beside the entries. -/
structure Meta where
  nextDue : Int
  status : Status
  observedAt : Option Int
  lastSuccess : Option Int
  truncated : Bool
  cacheEvicted : Bool
  errors : ℕ
  touched : Int
  queue : Queue

structure Cache where
  resource : Resource
  locked : Bool
  entries : List LogEntry
  fields : Meta
  invalidated : Bool

def noQueue : Queue := ⟨none, none, false, none⟩

def Cache.new (resource : Resource) : Cache where
  resource := resource
  locked := false
  entries := []
  fields := ⟨0, .unavailable, none, none, false, false, 0, 0, noQueue⟩
  invalidated := false

/-- `_discard`. -/
def Cache.discard (cache : Cache) : Cache :=
  { cache with
    entries := []
    fields := { cache.fields with lastSuccess := none, observedAt := none, status := .unavailable }
    invalidated := true }

/-- The registry, in the order of insertion; caches are numbered as they are made. -/
structure State where
  registry : List (CacheKey × ℕ)
  caches : ℕ → Cache
  next : ℕ

def State.find (s : State) (key : CacheKey) : Option ℕ := (s.registry.find? fun row => row.1 = key).map (·.2)

def State.modify (s : State) (cache : ℕ) (f : Cache → Cache) : State :=
  { s with caches := Function.update s.caches cache (f (s.caches cache)) }

/-- `_caches.pop(key, None)`. -/
def State.pop (s : State) (key : CacheKey) : State :=
  { s with registry := s.registry.filter fun row => row.1 ≠ key }

/-- `_reconcile_locked`. -/
def State.reconcile (s : State) (items : List Resource) : State :=
  let current := items.map (cacheKey site)
  let gone := (s.registry.filter fun row => row.1 ∉ current).map (·.2)
  { s with
    registry := s.registry.filter fun row => row.1 ∈ current
    caches := fun cache => if cache ∈ gone then (s.caches cache).discard else s.caches cache }

/-- The first of the rows that was touched least recently. -/
def State.oldest (s : State) : List (CacheKey × ℕ) → Option (CacheKey × ℕ)
  | [] => none
  | row :: rows =>
    match s.oldest rows with
    | none => some row
    | some best =>
      some (if (s.caches best.2).fields.touched < (s.caches row.2).fields.touched then best else row)

/-- The place for another cache, made by evicting the oldest that is not being refreshed. -/
def State.makeRoom (s : State) : Option State :=
  if s.registry.length < maxCacheResources then some s
  else
    match s.oldest (s.registry.filter fun row => !(s.caches row.2).locked) with
    | none => none
    | some (key, evicted) => some ((s.pop key).modify evicted Cache.discard)

def State.touch (s : State) (cache : ℕ) (now : Int) : State :=
  s.modify cache fun c => { c with fields := { c.fields with touched := now } }

def State.insert (s : State) (resource : Resource) : State where
  registry := s.registry ++ [(cacheKey site resource, s.next)]
  caches := Function.update s.caches s.next (Cache.new resource)
  next := s.next + 1

/-- `_cache`. -/
def State.cache (s : State) (resource : Resource) (items : List Resource) (now : Int) :
    State × Option ℕ :=
  let s := s.reconcile site items
  if cacheKey site resource ∉ items.map (cacheKey site) then (s, none)
  else
    match s.find (cacheKey site resource) with
    | some cache => (s.touch cache now, some cache)
    | none =>
      match s.makeRoom with
      | none => (s, none)
      | some s => ((s.insert site resource).touch s.next now, some s.next)

def State.keyOf (s : State) (cache : ℕ) : CacheKey := cacheKey site (s.caches cache).resource

/-- The cache is not invalidated, and is the one in the registry. -/
def State.registered (s : State) (cache : ℕ) : Bool :=
  !(s.caches cache).invalidated && s.find (s.keyOf site cache) = some cache

/-- The section of `_is_current`, after the catalog has been read or could not be. -/
def State.current (s : State) (cache : ℕ) : Option (List Resource) → State × Bool
  | none => ((s.modify cache Cache.discard).pop (s.keyOf site cache), false)
  | some items => (s.reconcile site items, (s.reconcile site items).registered site cache)

/-- The retained entries of a cache while the whole is brought down to its bound. -/
structure Row where
  cache : ℕ
  entries : List LogEntry
  evicted : Bool

def Row.bytes (row : Row) : ℕ := (row.entries.map site.size).sum

/-- The entry with the least timestamp and id. -/
def oldestEntry : List LogEntry → Option LogEntry
  | [] => none
  | entry :: entries =>
    match oldestEntry entries with
    | none => some entry
    | some best =>
      some (if best.timestamp < entry.timestamp ∨ best.timestamp = entry.timestamp ∧ best.id < entry.id then
        best else entry)

/-- The first of the largest rows; of two equal ones the one that was touched less recently. -/
def State.largest (s : State) (weight : Row → ℕ) : List Row → Option Row
  | [] => none
  | row :: rows =>
    match s.largest weight rows with
    | none => some row
    | some best =>
      some (if weight row < weight best ∨ weight row = weight best ∧
          (s.caches best.cache).fields.touched < (s.caches row.cache).fields.touched then best else row)

def Row.drop (row : Row) : Row :=
  match oldestEntry row.entries with
  | none => row
  | some entry => { row with entries := row.entries.erase entry, evicted := true }

/-- The loop of `_bound_locked`; every turn removes an entry. -/
def State.drain (s : State) : ℕ → List Row → List Row
  | 0, rows => rows
  | fuel + 1, rows =>
    let count := (rows.map fun row => row.entries.length).sum
    if site.bufferEntries < count ∨ site.bufferBytes < (rows.map (Row.bytes site)).sum then
      let weight := fun row => if site.bufferEntries < count then row.entries.length else Row.bytes site row
      match s.largest weight (rows.filter fun row => !row.entries.isEmpty) with
      | none => rows
      | some best => s.drain fuel (rows.map fun row => if row.cache = best.cache then row.drop else row)
    else rows

/-- A cache with the entries that are left to it. -/
def Cache.keep (cache : Cache) (row : Row) : Cache :=
  { cache with
    entries := row.entries
    fields :=
      if row.evicted then
        { cache.fields with
          truncated := true
          cacheEvicted := true
          status := if cache.fields.status = .fresh then .stale else cache.fields.status }
      else cache.fields }

/-- `_bound_locked`. -/
def State.bound (s : State) (target : ℕ) (updated : List LogEntry) : State :=
  let rows : List Row := s.registry.map fun row =>
    ⟨row.2, if row.2 = target then updated else (s.caches row.2).entries, false⟩
  let rows := s.drain site (rows.map fun row => row.entries.length).sum rows
  { s with
    caches := fun cache =>
      match rows.find? fun row => row.cache = cache with
      | none => s.caches cache
      | some row => (s.caches cache).keep row }

/-- The section that publishes a sample. -/
def State.publish (s : State) (cache : ℕ) (updated : List LogEntry) (clipped : Bool) (serverTime : Int) :
    State × Bool :=
  if s.registered site cache then
    ((s.bound site cache updated).modify cache fun c =>
      { c with fields := { c.fields with
          truncated := c.fields.truncated || clipped
          lastSuccess := some serverTime
          status := if c.fields.cacheEvicted then .stale else .fresh
          errors := 0 } }, true)
  else (s, false)

/-! ## What a call asks for -/

inductive Raised
  | policyChanged
  | expired
  | outside (name : String)
  deriving DecidableEq

/-- What may raise and is not looked into. -/
inductive Outside
  | deadline
  | scope
  | client
  | query
  | authorize
  | finish
  deriving DecidableEq

structure Reservation where
  allowed : Bool
  serverTime : Int
  nextPollSeconds : Int
  queue : Queue

/-- A request: a reading of the clock or of the catalog, a section under the lock, the fields and the lock
of a cache, or a remote call. -/
inductive Ask (ω : Type)
  | monotonic
  | clock
  | catalog
  | outside (what : Outside)
  | reserve
  | fetch (cache : ℕ) (since serverTime : Int)
  | cache (resource : Resource) (items : List Resource)
  | current (cache : ℕ) (items : Option (List Resource))
  | resource (cache : ℕ)
  | fields (cache : ℕ)
  | set (cache : ℕ) (f : Meta → Meta)
  | acquire (cache : ℕ)
  | release (cache : ℕ)
  | kept (cache : ℕ) (window : Int)
  | publish (cache : ℕ) (updated : List LogEntry) (clipped : Bool) (serverTime : Int)
  | take (cache : ℕ)

abbrev Ask.Ans : Ask ω → Type
  | .monotonic | .clock => Int
  | .catalog => Option (List Resource)
  | .outside _ => Except Raised Unit
  | .reserve => Except Raised Reservation
  | .fetch .. => Except Raised (List ω × Bool)
  | .cache .. => Option ℕ
  | .current .. => Bool
  | .resource _ => Resource
  | .fields _ => Meta
  | .set .. => Unit
  | .acquire _ => Bool
  | .release _ => Unit
  | .kept .. => List LogEntry
  | .publish .. => Except Raised Bool
  | .take _ => Option (Meta × List LogEntry)

abbrev Code (ω α : Type) : Type := Prog (Ask.Ans (ω := ω)) Raised α

def ask (a : Ask ω) : Code ω a.Ans := .call a

def outside (what : Outside) : Code ω Unit := do
  let answer ← ask (.outside what)
  Prog.lift answer

/-- `_is_current`. -/
def isCurrent (cache : ℕ) : Code ω Bool := do
  let items ← ask .catalog
  ask (.current cache items)

/-- `dispatch_guard`. -/
def dispatchGuard (cache : ℕ) : Code ω Unit := do
  let current ← isCurrent cache
  if current then outside .authorize else .raise .policyChanged

/-- `fetch_page`, with the guard as its `authorize`. -/
def fetchPage (cache : ℕ) (since serverTime : Int) : Code ω (List ω × Bool) := do
  outside .deadline
  outside .scope
  outside .client
  outside .scope
  dispatchGuard cache
  let answer ← ask (.fetch cache since serverTime)
  let page ← Prog.lift answer
  outside .deadline
  pure page

/-- An entry is put under its id. -/
def put (entries : List LogEntry) (entry : LogEntry) : List LogEntry :=
  if entries.any fun e => e.id = entry.id then
    entries.map fun e => if e.id = entry.id then entry else e
  else entries ++ [entry]

/-- The entries with those of a page, and whether one of them was clipped. -/
def normalizePage (resource : Resource) (window serverTime : Int) :
    List ω → List LogEntry → Bool → Code ω (List LogEntry × Bool)
  | [], updated, clipped => pure (updated, clipped)
  | raw :: page, updated, clipped => do
    outside .deadline
    match site.normalize raw resource window serverTime with
    | none => normalizePage resource window serverTime page updated clipped
    | some (entry, clip) => normalizePage resource window serverTime page (put updated entry) (clipped || clip)

def Queue.clear (fields : Meta) : Meta := { fields with queue := noQueue }

/-- The fields after a failure. -/
def failed (now : Int) (fields : Meta) : Meta :=
  let errors := min (fields.errors + 1) 4
  { fields with
    errors
    status := if fields.lastSuccess.isSome then .stale else .unavailable
    queue := noQueue
    nextDue := now + min 60 (5 * 2 ^ errors) * second }

def fail (cache : ℕ) : Code ω Unit := do
  let now ← ask .monotonic
  ask (.set cache (failed now))

/-- A refresh up to its reservation; none if it ends there. -/
def reserveSample (cache : ℕ) (now : Int) : Code ω (Option Reservation) := do
  let fields ← ask (.fields cache)
  if now < fields.nextDue then pure none
  else
    let current ← isCurrent cache
    if current then
      ask (.set cache fun m => { m with nextDue := now + 5 * second })
      outside .scope
      outside .deadline
      let answer ← ask .reserve
      let reservation ← Prog.lift answer
      pure (some reservation)
    else pure none

/-- The rest of a refresh that was allowed a sample. -/
def fetchSample (cache : ℕ) (resource : Resource) (reservation : Reservation) : Code ω Unit := do
  let now ← ask .monotonic
  ask (.set cache fun m => { m with nextDue := now + cadenceSeconds * second })
  let window := reservation.serverTime - site.lookback
  let fields ← ask (.fields cache)
  let since := match fields.lastSuccess with
    | none => window
    | some time => max window (time - 120 * second)
  outside .deadline
  dispatchGuard cache
  outside .scope
  outside .query
  let page ← fetchPage cache since reservation.serverTime
  outside .deadline
  let kept ← ask (.kept cache window)
  let sample ← normalizePage site resource window reservation.serverTime (page.1.take site.pageSize) kept
    (page.2 || site.pageSize ≤ page.1.length)
  outside .deadline
  let current ← isCurrent cache
  if current then
    let answer ← ask (.publish cache sample.1 sample.2 reservation.serverTime)
    let _ ← Prog.lift answer
    pure ()
  else pure ()

def sample (cache : ℕ) (resource : Resource) (reservation : Reservation) : Code ω Unit := do
  ask (.set cache fun m => { m with observedAt := some reservation.serverTime, queue := reservation.queue })
  if reservation.allowed then fetchSample site cache resource reservation
  else
    let now ← ask .monotonic
    ask (.set cache fun m =>
      { m with status := .throttled, nextDue := now + reservation.nextPollSeconds * second })

/-- The permit of a sample is given back; no exception leaves a call that may still be running. -/
def finishSample (cache : ℕ) : Code ω Unit :=
  Prog.handle (outside .finish) fun _ => do
    let now ← ask .monotonic
    ask (.set cache fun m =>
      { m with
        status := if m.lastSuccess.isSome then .stale else .unavailable
        queue := noQueue
        nextDue := now + 60 * second })

/-- A refresh that holds the lock of its cache. -/
def refreshLocked (cache : ℕ) (now : Int) : Code ω Unit := do
  let resource ← ask (.resource cache)
  let reservation ← Prog.handle (reserveSample cache now) fun _ => do
    fail cache
    pure none
  match reservation with
  | none => ask (.release cache)
  | some reservation => do
    Prog.handle (sample site cache resource reservation) fun _ => fail cache
    if reservation.allowed then finishSample cache else pure ()
    ask (.release cache)

/-- `_refresh`. -/
def refresh (cache : ℕ) : Code ω Unit := do
  let now ← ask .monotonic
  let fields ← ask (.fields cache)
  if now < fields.nextDue then pure ()
  else
    let acquired ← ask (.acquire cache)
    if acquired then refreshLocked site cache now else pure ()

/-! ## Reading -/

structure Query where
  limit : ℕ
  lookback : Int
  severity : ℕ
  text : String
  revision : Option String
  execution : Option String
  taskIndex : Option ℕ

structure Response where
  status : Status
  window : Int
  nextPollSeconds : Option Int
  fields : Option Meta
  age : Option Int
  truncated : Bool
  queue : Queue
  entries : List LogEntry

def Query.window (query : Query) (now : Int) : Int := now - min query.lookback site.lookback

def admits (wanted : Option String) (actual : Option String) : Bool :=
  match wanted with
  | none => true
  | some _ => actual = wanted

def Query.selects (query : Query) (window : Int) (entry : LogEntry) : Bool :=
  window ≤ entry.timestamp && query.severity ≤ entry.severity && admits query.revision entry.revision &&
    admits query.execution entry.execution && (query.taskIndex.isNone || entry.taskIndex = query.taskIndex) &&
    (query.text.isEmpty || site.mentions query.text entry)

/-- `(timestamp, id)`, descending. -/
def later (a b : LogEntry) : Bool := b.timestamp < a.timestamp || (a.timestamp = b.timestamp && b.id ≤ a.id)

def empty (status : Status) (window : Int) : Response := ⟨status, window, none, none, none, false, noQueue, []⟩

/-- The deadline is checked before each entry is looked at. -/
def checkDeadline : List LogEntry → Code ω Unit
  | [] => pure ()
  | _ :: entries => do
    outside .deadline
    checkDeadline entries

def respond (query : Query) (window now : Int) (monotonic : Int) (fields : Meta) (entries : List LogEntry) :
    Response :=
  let age := fields.lastSuccess.map fun time => max 0 (now - time)
  let found := (entries.filter (query.selects site window)).mergeSort later
  { status := if fields.status = .fresh ∧ (age.any fun a => 15 * second < a) then .stale else fields.status
    window
    nextPollSeconds := some (max 5 (min 60 (-((monotonic - fields.nextDue) / second))))
    fields := some fields
    age := age
    truncated := fields.truncated || query.limit < found.length
    queue := fields.queue
    entries := found.take query.limit }

/-- `read_logs`. -/
def readLogs (resource : Resource) (items : List Resource) (query : Query) : Code ω Response := do
  let now ← ask .clock
  let window := query.window site now
  if ¬site.valid resource then .raise (.outside "Invalid runtime log catalog coordinates")
  else if ¬site.enabled ∨ site.mockMode ∨ ¬resource.enabled ∨ resource.allowedLogins = [] then
    pure (empty .disabled window)
  else
    let found ← ask (.cache resource items)
    match found with
    | none =>
      pure { empty .unavailable window with
        queue := ⟨none, none, true, some "overload"⟩, nextPollSeconds := some 60 }
    | some cache => do
      refresh site cache
      let current ← isCurrent cache
      if current then
        let now ← ask .clock
        let window := query.window site now
        let taken ← ask (.take cache)
        match taken with
        | none => pure (empty .unavailable window)
        | some (fields, entries) => do
          let monotonic ← ask .monotonic
          checkDeadline entries
          pure (respond site query window now monotonic fields entries)
      else pure (empty .unavailable window)

/-! ## The world -/

/-- What has happened, as far as it matters to what is served. A cache is dropped when a catalog is put
into effect that lacks its key, when its catalog could not be read, or when it is evicted. -/
inductive Event (ω ι : Type)
  | found (i : ι) (cache : ℕ)
  | read (i : ι) (items : Option (List Resource))
  | checked (i : ι) (cache : ℕ) (items : Option (List Resource)) (passed : Bool)
  | locked (i : ι) (cache : ℕ) (acquired : Bool)
  | fetched (i : ι) (cache : ℕ) (page : List ω)
  | stored (i : ι) (cache : ℕ)
  | released (i : ι) (cache : ℕ)
  | took (i : ι) (cache : ℕ) (entries : List LogEntry)
  | dropped (cache : ℕ)
  deriving DecidableEq

/-- The catalog is none while it cannot be read. The log has the newest event first. -/
structure World (ω ι : Type) where
  catalog : Option (List Resource)
  state : State
  log : List (Event ω ι)

/-- No cache has been made. -/
def World.start {ι : Type} (catalog : Option (List Resource)) : World ω ι where
  catalog := catalog
  state := ⟨[], fun _ => Cache.new ⟨"", "", "", "", false, []⟩, 0⟩
  log := []

variable {ι : Type}

/-- The caches, registered or not, whose key the catalog lacks. -/
def State.missing (s : State) (items : List Resource) : List ℕ :=
  (List.range s.next).filter fun cache => s.keyOf site cache ∉ items.map (cacheKey site)

/-- The caches, registered or not, of the key of this one. -/
def State.sameKey (s : State) (cache : ℕ) : List ℕ :=
  (List.range s.next).filter fun other => s.keyOf site other = s.keyOf site cache

/-- The caches that a section drops. -/
def State.currentDrops (s : State) (cache : ℕ) : Option (List Resource) → List ℕ
  | none => s.sameKey site cache
  | some items => s.missing site items

/-- The cache that is evicted to make room. -/
def State.evicted (s : State) : List ℕ :=
  if s.registry.length < maxCacheResources then []
  else ((s.oldest (s.registry.filter fun row => !(s.caches row.2).locked)).map (·.2)).toList

/-- The caches that `_cache` drops. -/
def State.cacheDrops (s : State) (resource : Resource) (items : List Resource) : List ℕ :=
  s.missing site items ++
    let s := s.reconcile site items
    if cacheKey site resource ∈ items.map (cacheKey site) ∧ s.find (cacheKey site resource) = none then s.evicted
    else []

def drops (caches : List ℕ) : List (Event ω ι) := caches.map .dropped

def World.note (w : World ω ι) (state : State) (events : List (Event ω ι)) : World ω ι :=
  { w with state, log := events ++ w.log }

def State.setFields (s : State) (cache : ℕ) (f : Meta → Meta) : State :=
  s.modify cache fun c => { c with fields := f c.fields }

def State.setLocked (s : State) (cache : ℕ) (locked : Bool) : State :=
  s.modify cache fun c => { c with locked }

/-- The world after a section of `_cache`. -/
def World.cache (w : World ω ι) (i : ι) (resource : Resource) (items : List Resource) (now : Int) : World ω ι :=
  w.note (w.state.cache site resource items now).1
    (((w.state.cache site resource items now).2.map (Event.found i)).toList ++
      drops (w.state.cacheDrops site resource items))

/-- The world after a section of `_is_current`. -/
def World.current (w : World ω ι) (i : ι) (cache : ℕ) (items : Option (List Resource)) : World ω ι :=
  w.note (w.state.current site cache items).1
    (.checked i cache items (w.state.current site cache items).2 :: drops (w.state.currentDrops site cache items))

/-- The world after a section that publishes, or does not. -/
def World.publish (w : World ω ι) (i : ι) (cache : ℕ) (updated : List LogEntry) (clipped : Bool)
    (serverTime : Int) : World ω ι :=
  w.note (w.state.publish site cache updated clipped serverTime).1
    (if (w.state.publish site cache updated clipped serverTime).2 then [.stored i cache] else [])

def World.took (w : World ω ι) (i : ι) (cache : ℕ) : World ω ι :=
  w.note w.state [.took i cache (w.state.caches cache).entries]

def sem (i : ι) (w : World ω ι) : (a : Ask ω) → World ω ι → a.Ans → Prop
  | .catalog, w', r => r = w.catalog ∧ w' = w.note w.state [.read i w.catalog]
  | .cache resource items, w', r => ∃ now, r = (w.state.cache site resource items now).2 ∧
    w' = w.cache site i resource items now
  | .current cache items, w', r => r = (w.state.current site cache items).2 ∧ w' = w.current site i cache items
  | .resource cache, w', r => r = (w.state.caches cache).resource ∧ w' = w
  | .fields cache, w', r => r = (w.state.caches cache).fields ∧ w' = w
  | .set cache f, w', _ => w' = { w with state := w.state.setFields cache f }
  | .acquire cache, w', r => r = !(w.state.caches cache).locked ∧
    w' = w.note (if r then w.state.setLocked cache true else w.state) [.locked i cache r]
  | .release cache, w', _ => w' = w.note (w.state.setLocked cache false) [.released i cache]
  | .fetch cache _ _, w', r =>
    (∃ x, r = .error x ∧ w' = w) ∨ ∃ page more, r = .ok (page, more) ∧ w' = w.note w.state [.fetched i cache page]
  | .kept cache window, w', r =>
    r = (w.state.caches cache).entries.filter (fun entry => window ≤ entry.timestamp) ∧ w' = w
  | .publish cache updated clipped serverTime, w', r => (∃ x, r = .error x ∧ w' = w) ∨
    r = .ok (w.state.publish site cache updated clipped serverTime).2 ∧
      w' = w.publish site i cache updated clipped serverTime
  | .take cache, w', r =>
    if (w.state.caches cache).invalidated then r = none ∧ w' = w
    else r = some ((w.state.caches cache).fields, (w.state.caches cache).entries) ∧ w' = w.took i cache
  | _, w', _ => w' = w

/-- The catalog is replaced, by anything, whenever it likes. -/
def system (ω ι : Type) (site : Site ω) : System ι (World ω ι) (Ask.Ans (ω := ω)) where
  sem := sem site
  env w w' := ∃ catalog, w' = { w with catalog }

/-- A call of `read_logs`. -/
structure Call where
  resource : Resource
  items : List Resource
  query : Query

def begin (catalog : Option (List Resource)) (calls : ι → Call) :
    Conf ι (World ω ι) (Ask.Ans (ω := ω)) Raised Response :=
  ⟨.start catalog, fun i => readLogs site (calls i).resource (calls i).items (calls i).query⟩

end RuntimeLogs
